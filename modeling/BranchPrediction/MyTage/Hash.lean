import BranchPrediction.Trace
import Mathlib.Data.Nat.Bitwise
import Mathlib.Tactic.IntervalCases

/-!
# `get_index` and `get_tag`

The two hash functions of `MyTage.cpp`, and the sizes they are called with.

Over the integers modulo two both are linear: a result is the exclusive or of a
part that depends on the address alone and a part that depends on the history
alone (`toNat_getIndex`, `toNat_getTag`).  The tag of a history does not
determine it, since the top bit falls off the left shift, but tag and index
together do (`history_injective`).
-/

namespace BranchPrediction.MyTage

/-- `T1_SIZE`. -/
def t1Size : ℕ := 512

/-- `T2_SIZE`. -/
def t2Size : ℕ := 512

/-- `HIST1`. -/
def hist1 : UInt64 := 8

/-- `HIST2`. -/
def hist2 : UInt64 := 16

/-- `get_index`. -/
def getIndex (ip : ADDRINT) (historyVal histLen : UInt64) (size : ℕ) : UInt32 :=
  let h := historyVal &&& ((1 <<< histLen) - 1)
  let h := h ^^^ ((h >>> 3) ^^^ (h <<< 5))
  ((ip ^^^ h ^^^ (ip >>> 2)) &&& (UInt64.ofNat size - 1)).toUInt32

/-- `get_tag`. -/
def getTag (ip : ADDRINT) (historyVal histLen : UInt64) : UInt16 :=
  let h := historyVal &&& ((1 <<< histLen) - 1)
  ((ip ^^^ (h >>> 2) ^^^ (h <<< 1)) &&& 0xFFFF).toUInt16

/-- The mask keeps an index inside a table of 512 entries. -/
theorem getIndex_lt (ip : ADDRINT) (historyVal histLen : UInt64) :
    (getIndex ip historyVal histLen 512).toNat < 512 := by
  simp only [getIndex, UInt64.toNat_toUInt32, UInt64.toNat_and]
  apply (Nat.mod_le _ _).trans_lt
  exact Nat.lt_of_le_of_lt Nat.and_le_right (by decide)

/-! ### Address part and history part -/

/-- What an address contributes to an index. -/
def addressIndex (ip : ADDRINT) : ℕ := (ip.toNat ^^^ ip.toNat >>> 2) % 2 ^ 9

/-- What a history contributes to an index. -/
def historyIndex (h : ℕ) : ℕ := (h ^^^ (h >>> 3 ^^^ h <<< 5)) % 2 ^ 9

/-- What an address contributes to a tag. -/
def addressTag (ip : ADDRINT) : ℕ := ip.toNat % 2 ^ 16

/-- What a history contributes to a tag. -/
def historyTag (h : ℕ) : ℕ := (h >>> 2 ^^^ h <<< 1) % 2 ^ 16

theorem toNat_mask {len : UInt64} {n : ℕ} (hlen : len.toNat = n) (hn : n < 64) (hv : UInt64) :
    (hv &&& ((1 <<< len) - 1)).toNat = hv.toNat % 2 ^ n := by
  have hone : ((1 : UInt64) <<< len).toNat = 2 ^ n := by
    rw [UInt64.toNat_shiftLeft, hlen, Nat.mod_eq_of_lt hn, UInt64.toNat_one, Nat.one_shiftLeft]
    exact Nat.mod_eq_of_lt (Nat.pow_lt_pow_right (by decide) hn)
  rw [UInt64.toNat_and, UInt64.toNat_sub_of_le, hone, UInt64.toNat_one,
    Nat.and_two_pow_sub_one_eq_mod]
  rw [UInt64.le_iff_toNat_le, hone, UInt64.toNat_one]
  exact Nat.one_le_two_pow

theorem toNat_getIndex {len : UInt64} {n : ℕ} (hlen : len.toNat = n) (hn : n < 64) (ip : ADDRINT)
    (hv : UInt64) :
    (getIndex ip hv len 512).toNat = addressIndex ip ^^^ historyIndex (hv.toNat % 2 ^ n) := by
  unfold getIndex
  dsimp only
  simp only [UInt64.toNat_toUInt32, UInt64.toNat_and, UInt64.toNat_xor, UInt64.toNat_shiftRight,
    UInt64.toNat_shiftLeft, toNat_mask hlen hn]
  have hmask : (UInt64.ofNat 512 - 1).toNat = 2 ^ 9 - 1 := rfl
  rw [hmask, Nat.and_two_pow_sub_one_eq_mod]
  generalize hv.toNat % 2 ^ n = h
  have h3 : UInt64.toNat 3 % 64 = 3 := rfl
  have h5 : UInt64.toNat 5 % 64 = 5 := rfl
  have h2 : UInt64.toNat 2 % 64 = 2 := rfl
  rw [h3, h5, h2]
  apply Nat.eq_of_testBit_eq
  intro i
  simp only [addressIndex, historyIndex, Nat.testBit_mod_two_pow, Nat.testBit_xor,
    Nat.testBit_shiftRight, Nat.testBit_shiftLeft]
  by_cases hi : i < 9
  · simp only [hi, decide_true, Bool.true_and, show i < 64 by omega, show i < 32 by omega]
    exact Bool.xor_right_comm _ _ _
  · simp [hi]

theorem toNat_getTag {len : UInt64} {n : ℕ} (hlen : len.toNat = n) (hn : n < 64) (ip : ADDRINT)
    (hv : UInt64) :
    (getTag ip hv len).toNat = addressTag ip ^^^ historyTag (hv.toNat % 2 ^ n) := by
  unfold getTag
  simp only [UInt64.toNat_toUInt16, UInt64.toNat_and, UInt64.toNat_xor, UInt64.toNat_shiftRight,
    UInt64.toNat_shiftLeft, toNat_mask hlen hn]
  have hmask : UInt64.toNat 0xFFFF = 2 ^ 16 - 1 := rfl
  rw [hmask, Nat.and_two_pow_sub_one_eq_mod]
  generalize hv.toNat % 2 ^ n = h
  have h1 : UInt64.toNat 1 % 64 = 1 := rfl
  have h2 : UInt64.toNat 2 % 64 = 2 := rfl
  rw [h1, h2]
  apply Nat.eq_of_testBit_eq
  intro i
  simp only [addressTag, historyTag, Nat.testBit_mod_two_pow, Nat.testBit_xor,
    Nat.testBit_shiftRight, Nat.testBit_shiftLeft]
  by_cases hi : i < 16
  · simp only [hi, decide_true, Bool.true_and, show i < 64 by omega]
    ac_rfl
  · simp [hi]

/-! ### The hashes are linear in the history -/

theorem testBit_historyTag (h i : ℕ) : (historyTag h).testBit i =
    (decide (i < 16) && (h.testBit (2 + i) ^^ (decide (i ≥ 1) && h.testBit (i - 1)))) := by
  simp only [historyTag, Nat.testBit_mod_two_pow, Nat.testBit_xor, Nat.testBit_shiftRight,
    Nat.testBit_shiftLeft]

theorem testBit_historyIndex (h i : ℕ) : (historyIndex h).testBit i =
    (decide (i < 9) &&
      (h.testBit i ^^ (h.testBit (3 + i) ^^ (decide (i ≥ 5) && h.testBit (i - 5))))) := by
  simp only [historyIndex, Nat.testBit_mod_two_pow, Nat.testBit_xor, Nat.testBit_shiftRight,
    Nat.testBit_shiftLeft]

/-- **Index and tag together separate all histories.**  A tag fixes the bits two
places up against those one place down, so bits three apart agree together; the
ends of the register settle two of the three classes, and bit 5 of the index
settles the last. -/
theorem history_injective {h h' : ℕ} (hh : h < 2 ^ 16) (hh' : h' < 2 ^ 16)
    (htag : historyTag h = historyTag h') (hindex : historyIndex h = historyIndex h') : h = h' := by
  let Agree : ℕ → Prop := fun i => h.testBit i = h'.testBit i
  have hhigh : ∀ i ≥ 16, Agree i := by
    intro i hi
    have hpow : 2 ^ 16 ≤ 2 ^ i := Nat.pow_le_pow_right (by decide) hi
    simp only [Agree, Nat.testBit_lt_two_pow (hh.trans_le hpow),
      Nat.testBit_lt_two_pow (hh'.trans_le hpow)]
  have hstep : ∀ j < 15, (Agree j ↔ Agree (j + 3)) := by
    intro j hj
    have := congrArg (fun t => t.testBit (j + 1)) htag
    simp only [testBit_historyTag, show j + 1 < 16 by omega, decide_true, Bool.true_and,
      show j + 1 ≥ 1 by omega, Nat.add_sub_cancel, show 2 + (j + 1) = j + 3 by omega] at this
    simp only [Agree]
    grind
  have h2 : Agree 2 := by
    have := congrArg (fun t => t.testBit 0) htag
    simpa only [testBit_historyTag, Nat.zero_lt_succ, decide_true, Bool.true_and, Nat.add_zero,
      show ¬ (0 : ℕ) ≥ 1 by omega, decide_false, Bool.false_and, Bool.xor_false] using this
  -- bits three apart agree together
  have hchain : ∀ k i, i + 3 * k < 18 → (Agree i ↔ Agree (i + 3 * k)) := by
    intro k
    induction k with
    | zero => exact fun i _ => Iff.rfl
    | succ k ih => exact fun i hi => (ih i (by omega)).trans (hstep (i + 3 * k) (by omega))
  have h1 : Agree 1 := (hchain 5 1 (by omega)).mpr (hhigh 16 le_rfl)
  have h5 : Agree 5 := (hstep 2 (by omega)).mp h2
  have h8 : Agree 8 := (hstep 5 (by omega)).mp h5
  have h0 : Agree 0 := by
    have := congrArg (fun t => t.testBit 5) hindex
    simp only [testBit_historyIndex] at this
    simp only [Agree] at h5 h8 ⊢
    simpa [h5, h8] using this
  apply Nat.eq_of_testBit_eq
  intro i
  rcases lt_or_ge i 16 with hi | hi
  · have hbase : ∀ r < 3, Agree r := fun r hr => by interval_cases r <;> assumption
    have := (hchain (i / 3) (i % 3) (by omega)).mp (hbase _ (Nat.mod_lt _ (by decide)))
    rwa [Nat.mod_add_div] at this
  · exact hhigh i hi

end BranchPrediction.MyTage
