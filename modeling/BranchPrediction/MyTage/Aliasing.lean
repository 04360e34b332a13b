import BranchPrediction.MyTage.Context
import BranchPrediction.MyTage.Provenance
import BranchPrediction.Relocation
import Mathlib.Data.Fintype.Prod

/-!
# Who shares an entry with whom

A context is an address and a history.  Two contexts are looked up alike if index
and tag are equal, and because both hashes are linear that depends only on the
exclusive or of the addresses and that of the histories: the difference of the
histories must be in the kernel of one linear map (`residue`), and it then fixes
the difference of the addresses (`lookup_eq_iff`).

With the eight outcomes of `T1` the kernel is trivial, so `T1` never takes one
branch for another that is less than 64 KiB away.  With the sixteen of `T2` it has
128 elements, and every index and tag of `T2` is shared by 128 contexts.
-/

namespace BranchPrediction.MyTage

open Automata

/-! ## The hashes are linear -/

/-- What the tag of an address contributes to its index. -/
def tagIndex (t : ℕ) : ℕ := (t ^^^ t >>> 2) % 2 ^ 9

theorem testBit_tagIndex (t i : ℕ) :
    (tagIndex t).testBit i = (decide (i < 9) && (t.testBit i ^^ t.testBit (2 + i))) := by
  simp only [tagIndex, Nat.testBit_mod_two_pow, Nat.testBit_xor, Nat.testBit_shiftRight]

theorem addressIndex_eq (ip : ADDRINT) : addressIndex ip = tagIndex (addressTag ip) := by
  apply Nat.eq_of_testBit_eq
  intro i
  rw [testBit_tagIndex, addressIndex, addressTag]
  simp only [Nat.testBit_mod_two_pow, Nat.testBit_xor, Nat.testBit_shiftRight]
  by_cases hi : i < 9
  · simp [hi, show i < 16 by omega, show 2 + i < 16 by omega]
  · simp [hi]

theorem tagIndex_xor (t t' : ℕ) : tagIndex (t ^^^ t') = tagIndex t ^^^ tagIndex t' := by
  apply Nat.eq_of_testBit_eq
  intro i
  simp only [testBit_tagIndex, Nat.testBit_xor]
  grind

theorem historyIndex_xor (h h' : ℕ) :
    historyIndex (h ^^^ h') = historyIndex h ^^^ historyIndex h' := by
  apply Nat.eq_of_testBit_eq
  intro i
  simp only [testBit_historyIndex, Nat.testBit_xor]
  grind

theorem historyTag_xor (h h' : ℕ) : historyTag (h ^^^ h') = historyTag h ^^^ historyTag h' := by
  apply Nat.eq_of_testBit_eq
  intro i
  simp only [testBit_historyTag, Nat.testBit_xor]
  grind

/-- The differences of histories that some difference of addresses makes up for. -/
def residue (d : ℕ) : ℕ :=
  tagIndex (historyTag d) ^^^ historyIndex d

theorem residue_xor (h h' : ℕ) : residue (h ^^^ h') = residue h ^^^ residue h' := by
  unfold residue
  rw [historyTag_xor, tagIndex_xor, historyIndex_xor]
  ac_rfl

theorem xor_eq_iff {a b c : ℕ} : a ^^^ b = c ↔ a = c ^^^ b := by
  constructor
  · rintro rfl
    rw [Nat.xor_assoc, Nat.xor_self, Nat.xor_zero]
  · rintro rfl
    rw [Nat.xor_assoc, Nat.xor_self, Nat.xor_zero]

/-- **When two contexts are looked up alike.** -/
theorem lookup_eq_iff (ip ip' : ADDRINT) (h h' : ℕ) :
    (addressIndex ip ^^^ historyIndex h = addressIndex ip' ^^^ historyIndex h' ∧
        addressTag ip ^^^ historyTag h = addressTag ip' ^^^ historyTag h') ↔
      residue h = residue h' ∧ addressTag ip = addressTag ip' ^^^ historyTag (h ^^^ h') := by
  have htag : addressTag ip ^^^ historyTag h = addressTag ip' ^^^ historyTag h' ↔
      addressTag ip = addressTag ip' ^^^ historyTag (h ^^^ h') := by
    rw [xor_eq_iff, historyTag_xor, Nat.xor_assoc, Nat.xor_comm (historyTag h')]
  rw [htag]
  apply and_congr_left
  intro haddress
  have hsplit : addressIndex ip ^^^ historyIndex h =
      addressIndex ip' ^^^ (residue h ^^^ tagIndex (historyTag h')) := by
    rw [addressIndex_eq, addressIndex_eq, haddress, tagIndex_xor, historyTag_xor, tagIndex_xor,
      residue]
    ac_rfl
  rw [hsplit, Nat.xor_right_inj, xor_eq_iff, residue, residue,
    Nat.xor_comm (historyIndex h')]

/-! ## The first table -/

/-- Eight outcomes leave no difference. -/
theorem eq_zero_of_residue : ∀ d < 2 ^ 8, residue d = 0 → d = 0 := by
  decide +kernel

theorem historyTag_zero : historyTag 0 = 0 := rfl

/-- In `T1` two branches are looked up alike only if their addresses agree in their
low bits, after the same eight outcomes. -/
theorem lookup1_eq_iff_of_addresses (s s' : State) (ip ip' : ADDRINT) :
    (s.idx1 ip, s.tag1 ip) = (s'.idx1 ip', s'.tag1 ip') ↔
      addressTag ip = addressTag ip' ∧ s.ghr.toNat % 2 ^ 8 = s'.ghr.toNat % 2 ^ 8 := by
  rw [Prod.mk.injEq, Fin.ext_iff, ← UInt16.toNat_inj, val_idx1, val_idx1, toNat_tag1, toNat_tag1,
    lookup_eq_iff]
  constructor
  · rintro ⟨hresidue, haddress⟩
    have hlt := Nat.xor_lt_two_pow (Nat.mod_lt s.ghr.toNat (Nat.two_pow_pos 8))
      (Nat.mod_lt s'.ghr.toNat (Nat.two_pow_pos 8))
    have hzero := eq_zero_of_residue _ hlt (by rw [residue_xor, hresidue, Nat.xor_self])
    rw [hzero, historyTag_zero, Nat.xor_zero] at haddress
    exact ⟨haddress, Nat.xor_eq_zero_iff.mp hzero⟩
  · rintro ⟨haddress, hghr⟩
    rw [hghr, Nat.xor_self, historyTag_zero, Nat.xor_zero]
    exact ⟨rfl, haddress⟩

/-- **`T1` tells branches apart.**  After any two runs, two addresses are looked up
in `T1` under the same index and tag exactly if they agree modulo 64 KiB and the last
eight outcomes are the same. -/
theorem contexts_apart (range range' : Range) (es es' : List Event) (ip ip' : ADDRINT) :
    ((run range es {}).idx1 ip, (run range es {}).tag1 ip) =
        ((run range' es' {}).idx1 ip', (run range' es' {}).tag1 ip') ↔
      ip.toNat % 2 ^ 16 = ip'.toNat % 2 ^ 16 ∧
        lastInputs 8 (range.path es) = lastInputs 8 (range'.path es') := by
  rw [lookup1_eq_iff_of_addresses, toNat_ghr_run, toNat_ghr_run, register_mod (by decide),
    register_mod (by decide), register_eq_iff, addressTag, addressTag]

/-- A program of at most 64 KiB. -/
def Small (range : Range) : Prop :=
  range.high.toNat < range.low.toNat + 2 ^ 16

theorem eq_of_small {range : Range} (hsmall : Small range) {ip ip' : ADDRINT}
    (hip : range.Contains ip) (hip' : range.Contains ip')
    (haddress : addressTag ip = addressTag ip') : ip = ip' := by
  obtain ⟨hlow, hhigh⟩ := hip
  obtain ⟨hlow', hhigh'⟩ := hip'
  rw [UInt64.le_iff_toNat_le] at hlow hhigh hlow' hhigh'
  unfold Small at hsmall
  unfold addressTag at haddress
  rw [← UInt64.toNat_inj]
  omega

theorem lookup1_path {range : Range} (hsmall : Small range) {past past' : List Event}
    {ip ip' : ADDRINT} (hip : range.Contains ip) (hip' : range.Contains ip')
    (hlookup : ((run range past {}).idx1 ip, (run range past {}).tag1 ip) =
      ((run range past' {}).idx1 ip', (run range past' {}).tag1 ip')) :
    ip = ip' ∧ lastInputs 8 (range.path past) = lastInputs 8 (range.path past') := by
  obtain ⟨haddress, hghr⟩ := (lookup1_eq_iff_of_addresses _ _ _ _).mp hlookup
  rw [toNat_ghr_run, toNat_ghr_run, register_mod (by decide), register_mod (by decide),
    register_eq_iff] at hghr
  exact ⟨eq_of_small hsmall hip hip' haddress, hghr⟩

/-- An entry of `T1` was allocated at `e'`, which was mispredicted, and not again; and
every event since that has found it under its tag was of the same branch, after the
same eight outcomes. -/
structure OwnedSince (range : Range) (es : List Event) (i : Fin t1Size) (past' : List Event)
    (e' : Event) : Prop where
  before : past' ++ [e'] <+: es
  allocates : Allocates range (run range past' {}) e' (.t1 i)
  mispredicted : (run range past' {}).prediction e'.ip ≠ e'.isTaken
  last : ∀ past e, past' ++ [e'] <+: past → past ++ [e] <+: es →
    ¬ Allocates range (run range past {}) e (.t1 i)
  alone : ∀ past e, past' ++ [e'] <+: past → past ++ [e] <+: es → range.Contains e.ip →
    (run range past {}).idx1 e.ip = i → (run range past {}).hit1 e.ip →
    e.ip = e'.ip ∧ lastInputs 8 (range.path past) = lastInputs 8 (range.path past')

/-- **Entries of `T1` are not shared.**  In a program of at most 64 KiB, an entry of
`T1` that hits and was ever allocated was allocated last at an execution of the very
branch that hits it, after the same eight outcomes, and no other branch has used it
since. -/
theorem hit1_owned (range : Range) (hsmall : Small range) (past : List Event) (e : Event)
    (hin : range.Contains e.ip) (hhit : (run range past {}).hit1 e.ip)
    (halloc : ¬ NeverAllocated range past (.t1 ((run range past {}).idx1 e.ip))) :
    ∃ past' e', OwnedSince range past ((run range past {}).idx1 e.ip) past' e' ∧
      e'.ip = e.ip ∧ lastInputs 8 (range.path past') = lastInputs 8 (range.path past) := by
  obtain ⟨past', e', hbefore, ⟨hallocates, hwrong, htag⟩, hlast⟩ :=
    lastAllocated_of_not_never halloc
  -- every lookup that finds the entry from then on finds the tag it was given
  have hfound : ∀ (later : List Event) (d : Event), past' ++ [e'] <+: later → later <+: past →
      range.Contains d.ip → (run range later {}).idx1 d.ip = (run range past {}).idx1 e.ip →
      (run range later {}).hit1 d.ip →
      d.ip = e'.ip ∧ lastInputs 8 (range.path later) = lastInputs 8 (range.path past') := by
    intro later d hlater hwithin hd hidx hfinds
    obtain ⟨-, hlooks, -⟩ := allocated_spec hallocates.2
    rcases hlooks with hidx' | hidx'
    · have hkept := tag_run_of_not_allocates hlater fun past e hpast he =>
        hlast past e hpast (he.trans hwithin)
      rw [run_concat, tag_step_of_allocates hallocates, ← hidx, hit1_iff.mp hfinds, hidx]
        at hkept
      rw [hidx'] at hkept
      exact lookup1_path hsmall hd hallocates.1
        (Prod.ext (hidx.trans (Pointer.t1.inj hidx')) hkept)
    · cases hidx'
  obtain ⟨hip, hpath⟩ := hfound past e hbefore (List.prefix_refl _) hin rfl hhit
  exact ⟨past', e',
    { before := hbefore
      allocates := hallocates
      mispredicted := hwrong
      last := hlast
      alone := fun later d hlater hwithin =>
        hfound later d hlater ((List.prefix_append _ _).trans hwithin) },
    hip.symm, hpath.symm⟩

/-- A branch that is taken once, until it hits what it allocated. -/
def takenOnce : List Event :=
  [false, true, false, false, false, false, false, false, false, false].map fun b => ⟨4, 5, b⟩

theorem hit1_owned_takenOnce : ∃ past' e',
    OwnedSince ⟨0, 100⟩ takenOnce ((run ⟨0, 100⟩ takenOnce {}).idx1 4) past' e' ∧ e'.ip = 4 ∧
      lastInputs 8 (Range.path ⟨0, 100⟩ past') = lastInputs 8 (Range.path ⟨0, 100⟩ takenOnce) :=
  hit1_owned ⟨0, 100⟩ (by unfold Small; decide) takenOnce ⟨4, 5, false⟩ (by decide)
    (by decide +kernel) fun hnever => absurd (tag_of_never hnever) (by decide +kernel)

/-! ## The second table -/

theorem testBit_residue (d i : ℕ) : (residue d).testBit i = (decide (i < 9) &&
    (((d.testBit (2 + i) ^^ (decide (i ≥ 1) && d.testBit (i - 1))) ^^
        (d.testBit (4 + i) ^^ d.testBit (i + 1))) ^^
      (d.testBit i ^^ (d.testBit (3 + i) ^^ (decide (i ≥ 5) && d.testBit (i - 5)))))) := by
  rw [residue, Nat.testBit_xor, testBit_tagIndex, testBit_historyIndex]
  by_cases hi : i < 9
  · simp only [testBit_historyTag, hi, decide_true, Bool.true_and, show i < 16 by omega,
      show 2 + i < 16 by omega, show 2 + i ≥ 1 by omega, show 2 + i - 1 = i + 1 by omega,
      show 2 + (2 + i) = 4 + i by omega]
  · simp [hi]

/-- A difference in the kernel is settled by its four low and its three high bits:
each bit in between is one of the nine equations, and those below it. -/
theorem eq_zero_of_ends {d : ℕ} (hlow : d % 2 ^ 4 = 0) (hhigh : d / 2 ^ 13 = 0)
    (hresidue : residue d = 0) : d = 0 := by
  have hbit : ∀ j, d.testBit j = false := by
    intro j
    induction j using Nat.strong_induction_on with
    | _ j ih =>
        rcases Nat.lt_or_ge j 4 with hj | hj
        · have := congrArg (fun v => v.testBit j) hlow
          simpa only [Nat.testBit_mod_two_pow, hj, decide_true, Bool.true_and,
            Nat.zero_testBit] using this
        · rcases Nat.lt_or_ge j 13 with hj' | hj'
          · have hequation := congrArg (fun v => v.testBit (j - 4)) hresidue
            simp only [testBit_residue, show j - 4 < 9 by omega, decide_true, Bool.true_and,
              Nat.zero_testBit, show 4 + (j - 4) = j by omega, ih (2 + (j - 4)) (by omega),
              ih (j - 4 + 1) (by omega), ih (j - 4) (by omega), ih (3 + (j - 4)) (by omega),
              ih (j - 4 - 1) (by omega), ih (j - 4 - 5) (by omega)] at hequation
            simpa using hequation
          · have := congrArg (fun v => v.testBit (j - 13)) hhigh
            simpa only [Nat.testBit_div_two_pow, show j - 13 + 13 = j by omega,
              Nat.zero_testBit] using this
  apply Nat.eq_of_testBit_eq
  intro j
  rw [hbit, Nat.zero_testBit]

/-- The ends of a history and its residue. -/
def parts (h : Fin (2 ^ 16)) : Fin (2 ^ 4) × Fin (2 ^ 3) × Fin (2 ^ 9) :=
  (⟨h % 2 ^ 4, Nat.mod_lt _ (by decide)⟩, ⟨h / 2 ^ 13, by omega⟩,
    ⟨residue h, by
      apply Nat.lt_pow_two_of_testBit
      intro i hi
      rw [testBit_residue]
      simp [show ¬ i < 9 by omega]⟩)

theorem parts_injective : Function.Injective parts := by
  intro h h' heq
  obtain ⟨hlow, hrest⟩ := Prod.mk.inj heq
  obtain ⟨hhigh, hresidue⟩ := Prod.mk.inj hrest
  simp only [Fin.mk.injEq] at hlow hhigh hresidue
  have hzero := eq_zero_of_ends (d := h ^^^ h')
    (by rw [Nat.xor_mod_two_pow, hlow, Nat.xor_self])
    (by rw [Nat.xor_div_two_pow, hhigh, Nat.xor_self])
    (by rw [residue_xor, hresidue, Nat.xor_self])
  exact Fin.ext (Nat.xor_eq_zero_iff.mp hzero)

theorem parts_bijective : Function.Bijective parts :=
  (Fintype.bijective_iff_injective_and_card parts).mpr ⟨parts_injective, by simp⟩

/-- As many histories have one residue as another. -/
theorem card_residue {r : ℕ} (hr : r < 2 ^ 9) :
    (Finset.univ.filter fun h : Fin (2 ^ 16) => residue h = r).card = 128 := by
  have hcard : (Finset.univ : Finset (Fin (2 ^ 4) × Fin (2 ^ 3))).card = 128 := by simp
  rw [← hcard]
  refine Finset.card_bij (fun h _ => ((parts h).1, (parts h).2.1)) ?_ ?_ ?_
  · exact fun _ _ => Finset.mem_univ _
  · intro h hh h' hh' heq
    rw [Finset.mem_filter] at hh hh'
    apply parts_injective
    refine Prod.ext (Prod.mk.inj heq).1 (Prod.ext (Prod.mk.inj heq).2 ?_)
    exact Fin.ext (hh.2.trans hh'.2.symm)
  · intro ends _
    obtain ⟨h, hh⟩ := parts_bijective.2 (ends.1, ends.2, ⟨r, hr⟩)
    refine ⟨h, Finset.mem_filter.mpr ⟨Finset.mem_univ _, ?_⟩, ?_⟩
    · exact congrArg (fun t => (t.2.2 : ℕ)) hh
    · rw [hh]

/-- The address of a 64 KiB range that has a given tag part. -/
def addressOf (base : ADDRINT) (t : ℕ) : Fin (2 ^ 16) :=
  ⟨(t + (2 ^ 16 - base.toNat % 2 ^ 16)) % 2 ^ 16, Nat.mod_lt _ (by decide)⟩

theorem addressTag_eq_iff (base : ADDRINT) (offset : Fin (2 ^ 16)) {t : ℕ} (ht : t < 2 ^ 16) :
    addressTag (base + UInt64.ofNat offset) = t ↔ offset = addressOf base t := by
  have hoffset := offset.isLt
  have hsum : (base + UInt64.ofNat offset).toNat % 2 ^ 16 =
      (base.toNat + offset) % 2 ^ 16 := by
    rw [UInt64.toNat_add, UInt64.toNat_ofNat']
    omega
  rw [addressTag, hsum, Fin.ext_iff, addressOf]
  simp only
  omega

/-- When a context is looked up under an index and tag of `T2`: its history has one
residue, and its address one value. -/
theorem lookup2_eq_iff_of_context (base : ADDRINT) (i : ℕ) (t : UInt16)
    (c : Fin (2 ^ 16) × Fin (2 ^ 16)) :
    ((getIndex (base + UInt64.ofNat c.1) (UInt64.ofNat c.2) hist2 t2Size).toNat = i ∧
        getTag (base + UInt64.ofNat c.1) (UInt64.ofNat c.2) hist2 = t) ↔
      residue c.2 = i ^^^ tagIndex t.toNat ∧
        c.1 = addressOf base (t.toNat ^^^ historyTag c.2) := by
  have hhistory : (UInt64.ofNat c.2).toNat % 2 ^ 16 = c.2 := by
    have := c.2.isLt
    rw [UInt64.toNat_ofNat']
    omega
  have hlt : t.toNat ^^^ historyTag c.2 < 2 ^ 16 :=
    Nat.xor_lt_two_pow t.toNat_lt (Nat.mod_lt _ (by decide))
  rw [← addressTag_eq_iff base c.1 hlt, ← UInt16.toNat_inj, t2Size,
    toNat_getIndex toNat_hist2 (by decide), toNat_getTag toNat_hist2 (by decide), hhistory,
    addressIndex_eq, xor_eq_iff (a := addressTag _)]
  apply and_congr_left
  intro haddress
  rw [haddress, tagIndex_xor, Nat.xor_assoc, Nat.xor_comm (tagIndex t.toNat)]
  exact xor_eq_iff

/-- As many contexts, since each history goes with one address. -/
theorem card_contexts (base : ADDRINT) (t : ℕ) {r : ℕ} (hr : r < 2 ^ 9) :
    (Finset.univ.filter fun c : Fin (2 ^ 16) × Fin (2 ^ 16) =>
      residue c.2 = r ∧ c.1 = addressOf base (t ^^^ historyTag c.2)).card = 128 := by
  have himage : (Finset.univ.filter fun c : Fin (2 ^ 16) × Fin (2 ^ 16) =>
      residue c.2 = r ∧ c.1 = addressOf base (t ^^^ historyTag c.2)) =
      (Finset.univ.filter fun h : Fin (2 ^ 16) => residue h = r).image
        fun h : Fin (2 ^ 16) => (addressOf base (t ^^^ historyTag h), h) := by
    ext ⟨offset, h⟩
    simp only [Finset.mem_filter, Finset.mem_image, Finset.mem_univ, true_and, Prod.mk.injEq]
    constructor
    · rintro ⟨hh, rfl⟩
      exact ⟨h, hh, rfl, rfl⟩
    · rintro ⟨h', hh, rfl, rfl⟩
      exact ⟨hh, rfl⟩
  have hinjective : Function.Injective fun h : Fin (2 ^ 16) =>
      (addressOf base (t ^^^ historyTag h), h) := by
    intro h h' heq
    exact (Prod.ext_iff.mp heq).2
  rw [himage, Finset.card_image_of_injective _ hinjective, card_residue hr]

/-- **The entries of `T2` are shared evenly.**  Of the addresses of any 64 KiB and the
histories of sixteen outcomes, exactly 128 pairs are looked up under each index and
tag of `T2`. -/
theorem contexts_per_entry (base : ADDRINT) (i : Fin 512) (t : UInt16) :
    (Finset.univ.filter fun c : Fin (2 ^ 16) × Fin (2 ^ 16) =>
      (getIndex (base + UInt64.ofNat c.1) (UInt64.ofNat c.2) hist2 t2Size).toNat = i ∧
        getTag (base + UInt64.ofNat c.1) (UInt64.ofNat c.2) hist2 = t).card = 128 := by
  rw [Finset.filter_congr fun c _ => lookup2_eq_iff_of_context base i t c]
  exact card_contexts base t.toNat
    (Nat.xor_lt_two_pow i.isLt (Nat.mod_lt _ (by decide)))

end BranchPrediction.MyTage
