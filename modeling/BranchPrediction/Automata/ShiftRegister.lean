import Mathlib.Data.List.Induction
import Mathlib.Data.Nat.Bitwise
import Mathlib.Tactic.Linarith

/-!
# Shift registers

A `w`-bit register shifts every bit up by one and takes the newest at the
bottom.  After a run from zero its bit `i` is the input `i` steps back, and
zero where the run was shorter, so the register and the last `w` inputs, padded
with zeros at the old end, determine each other.
-/

namespace BranchPrediction.Automata

/-- One shift of a `w`-bit register. -/
def push (w v : ℕ) (b : Bool) : ℕ :=
  (2 * v + b.toNat) % 2 ^ w

/-- The register after a run from zero. -/
def register (w : ℕ) (l : List Bool) : ℕ :=
  l.foldl (push w) 0

/-- The last `n` inputs, newest first, padded with zeros at the old end. -/
def lastInputs (n : ℕ) (l : List Bool) : List Bool :=
  (l.reverse ++ List.replicate n false).take n

@[simp] theorem register_concat (w : ℕ) (l : List Bool) (b : Bool) :
    register w (l ++ [b]) = push w (register w l) b :=
  List.foldl_append

theorem push_lt (w v : ℕ) (b : Bool) : push w v b < 2 ^ w :=
  Nat.mod_lt _ (Nat.two_pow_pos w)

theorem register_lt (w : ℕ) (l : List Bool) : register w l < 2 ^ w := by
  induction l using List.reverseRecOn with
  | nil => exact Nat.two_pow_pos w
  | append_singleton l b _ =>
      rw [register_concat]
      exact push_lt w _ b

theorem testBit_push (w v : ℕ) (b : Bool) (i : ℕ) :
    (push w v b).testBit i = (decide (i < w) && if i = 0 then b else v.testBit (i - 1)) := by
  rw [push, Nat.testBit_mod_two_pow]
  congr 1
  cases i with
  | zero => cases b <;> simp [Nat.testBit_zero]
  | succ i =>
      rw [if_neg i.succ_ne_zero, Nat.testBit_succ, Nat.add_sub_cancel]
      congr 1
      cases b <;> simp only [Bool.toNat_false, Bool.toNat_true] <;> omega

theorem testBit_register (w : ℕ) (l : List Bool) (i : ℕ) :
    (register w l).testBit i = (decide (i < w) && (l.reverse[i]?).getD false) := by
  induction l using List.reverseRecOn generalizing i with
  | nil => simp [register]
  | append_singleton l b ih =>
      rw [register_concat, testBit_push, List.reverse_append]
      cases i with
      | zero => simp
      | succ i =>
          simp only [i.succ_ne_zero, if_false, Nat.add_sub_cancel, ih, List.reverse_singleton,
            List.singleton_append, List.getElem?_cons_succ]
          by_cases hi : i + 1 < w
          · simp [hi, Nat.lt_of_succ_lt hi]
          · simp [hi]

theorem length_lastInputs (n : ℕ) (l : List Bool) : (lastInputs n l).length = n := by
  simp [lastInputs]

theorem getElem?_lastInputs {n i : ℕ} (l : List Bool) (hi : i < n) :
    (lastInputs n l)[i]? = some ((l.reverse[i]?).getD false) := by
  rw [lastInputs, List.getElem?_take_of_lt hi, List.getElem?_append]
  split
  · next h => rw [List.getElem?_eq_getElem h, Option.getD_some]
  · next h =>
      rw [List.getElem?_eq_none (Nat.le_of_not_lt h), Option.getD_none,
        List.getElem?_replicate_of_lt (by omega)]

/-- What came before the last `n` inputs is forgotten. -/
theorem lastInputs_append {n : ℕ} {l' : List Bool} (hn : n ≤ l'.length) (l : List Bool) :
    lastInputs n (l ++ l') = lastInputs n l' := by
  rw [lastInputs, lastInputs, List.reverse_append, List.append_assoc,
    List.take_append_of_le_length (by simpa using hn),
    List.take_append_of_le_length (by simpa using hn)]

/-- The register holds exactly the last `w` inputs. -/
theorem register_eq_iff (w : ℕ) (l l' : List Bool) :
    register w l = register w l' ↔ lastInputs w l = lastInputs w l' := by
  constructor
  · intro h
    apply List.ext_getElem?
    intro i
    rcases Nat.lt_or_ge i w with hi | hi
    · have := congrArg (fun v => v.testBit i) h
      simp only [testBit_register, hi, decide_true, Bool.true_and] at this
      rw [getElem?_lastInputs l hi, getElem?_lastInputs l' hi, this]
    · rw [List.getElem?_eq_none ((length_lastInputs w l).trans_le hi),
        List.getElem?_eq_none ((length_lastInputs w l').trans_le hi)]
  · intro h
    apply Nat.eq_of_testBit_eq
    intro i
    rw [testBit_register, testBit_register]
    rcases Nat.lt_or_ge i w with hi | hi
    · have := congrArg (fun v => v[i]?) h
      simp only [getElem?_lastInputs _ hi, Option.some.injEq] at this
      rw [this]
    · simp [Nat.not_lt.mpr hi]

/-- The low bits of a register are a shorter register. -/
theorem register_mod {n w : ℕ} (hn : n ≤ w) (l : List Bool) :
    register w l % 2 ^ n = register n l := by
  apply Nat.eq_of_testBit_eq
  intro i
  rw [Nat.testBit_mod_two_pow, testBit_register, testBit_register]
  by_cases hi : i < n
  · simp [hi, hi.trans_le hn]
  · simp [hi]

end BranchPrediction.Automata
