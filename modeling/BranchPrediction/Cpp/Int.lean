import Mathlib.Tactic.Ring

/-!
# `int`

The operations on `int` have no result where the language gives them none, which is
where the exact one does not fit.
-/

namespace BranchPrediction.Cpp

/-- The numbers that fit an `int`. -/
def Fits (x : ℤ) : Prop :=
  -2 ^ 31 ≤ x ∧ x < 2 ^ 31

instance (x : ℤ) : Decidable (Fits x) :=
  inferInstanceAs (Decidable (_ ∧ _))

/-- `x + y`. -/
def add (x y : Int32) : Option Int32 :=
  if Fits (x.toInt + y.toInt) then some (x + y) else none

/-- `x * y`. -/
def mul (x y : Int32) : Option Int32 :=
  if Fits (x.toInt * y.toInt) then some (x * y) else none

theorem bmod_of_fits {x : ℤ} (h : Fits x) : x.bmod (2 ^ 32) = x := by
  obtain ⟨hge, hlt⟩ := h
  exact Int.bmod_eq_of_le (by omega) (by omega)

theorem add_spec {x y : Int32} (h : Fits (x.toInt + y.toInt)) :
    add x y = some (x + y) ∧ (x + y).toInt = x.toInt + y.toInt := by
  rw [Int32.toInt_add, bmod_of_fits h]
  exact ⟨if_pos h, rfl⟩

theorem mul_spec {x y : Int32} (h : Fits (x.toInt * y.toInt)) :
    mul x y = some (x * y) ∧ (x * y).toInt = x.toInt * y.toInt := by
  rw [Int32.toInt_mul, bmod_of_fits h]
  exact ⟨if_pos h, rfl⟩

end BranchPrediction.Cpp
