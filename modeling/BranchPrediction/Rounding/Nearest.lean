import Mathlib.Algebra.Order.Floor.Ring
import Mathlib.Algebra.Ring.Int.Parity
import Mathlib.Tactic.Linarith

/-!
# Rounding to an integer

The nearest integer, and of two that are equally near the even one, which is how
hardware and the C library round.
-/

namespace BranchPrediction.Rounding

variable {K : Type*} [Field K] [LinearOrder K] [FloorRing K]

/-- The nearest integer, ties to even. -/
def roundEven (x : K) : ℤ :=
  if 2 * Int.fract x < 1 ∨ 2 * Int.fract x = 1 ∧ Even ⌊x⌋ then ⌊x⌋ else ⌊x⌋ + 1

theorem floor_le_roundEven (x : K) : ⌊x⌋ ≤ roundEven x := by
  unfold roundEven
  split <;> omega

theorem roundEven_le_floor_add_one (x : K) : roundEven x ≤ ⌊x⌋ + 1 := by
  unfold roundEven
  split <;> omega

variable [IsStrictOrderedRing K]

@[simp] theorem roundEven_intCast (n : ℤ) : roundEven (n : K) = n := by
  rw [roundEven, Int.fract_intCast, Int.floor_intCast, if_pos (Or.inl (by simp))]

theorem roundEven_mono {x y : K} (h : x ≤ y) : roundEven x ≤ roundEven y := by
  rcases (Int.floor_le_floor h).lt_or_eq with hlt | heq
  · calc roundEven x ≤ ⌊x⌋ + 1 := roundEven_le_floor_add_one x
      _ ≤ ⌊y⌋ := hlt
      _ ≤ roundEven y := floor_le_roundEven y
  · have hfract : Int.fract x ≤ Int.fract y := by
      rw [Int.fract, Int.fract, heq]
      exact sub_le_sub_right h _
    unfold roundEven
    rw [heq]
    split
    · split <;> omega
    · next hx =>
        -- what is rounded up stays so
        have hy : ¬ (2 * Int.fract y < 1 ∨ 2 * Int.fract y = 1 ∧ Even ⌊y⌋) := by
          rw [not_or, not_lt, not_and] at hx ⊢
          refine ⟨by linarith [hx.1], ?_⟩
          intro htie
          exact heq ▸ hx.2 (by linarith [hx.1])
        rw [if_neg hy]

omit [IsStrictOrderedRing K] in
theorem roundEven_nonneg {x : K} (hx : 0 ≤ x) : 0 ≤ roundEven x :=
  (Int.floor_nonneg.mpr hx).trans (floor_le_roundEven x)

/-- An integer is never more than a half away. -/
theorem abs_roundEven_sub_le (x : K) : |(roundEven x : K) - x| ≤ 1 / 2 := by
  have hx : (⌊x⌋ : K) + Int.fract x = x := Int.floor_add_fract x
  unfold roundEven
  split
  · next h =>
      have hhalf : 2 * Int.fract x ≤ 1 := h.elim le_of_lt fun h => h.1.le
      have hnonneg := Int.fract_nonneg x
      rw [abs_le]
      constructor <;> linarith
  · next h =>
      rw [not_or, not_lt] at h
      have hlt := Int.fract_lt_one x
      push_cast
      rw [abs_le]
      constructor <;> linarith [h.1]

end BranchPrediction.Rounding
