import BranchPrediction.Rounding.Nearest
import Mathlib.Data.Int.Log
import Mathlib.Tactic.Ring

/-!
# Rounding to a number of digits

A positive number is rounded to `p` significant digits of a base by rounding it
to a multiple of its `unit`, the place value of the last of the `p` digits.  With
53 binary digits this is the arithmetic of doubles, as long as nothing leaves
the range of their exponents; with six decimal ones it is how they are printed.

`Rounds` keeps the two facts about such a rounding that survive composition: it
never turns the order of two numbers round, and it moves a number by no more
than a fraction of it.
-/

namespace BranchPrediction.Rounding

variable {K : Type*} [Field K] [LinearOrder K]

/-! ## Roundings one after the other -/

section

variable [IsStrictOrderedRing K]

/-- On numbers that are not negative: the order is kept, and no number moves by
more than a fraction of it. -/
structure Rounds (ε : K) (f : K → K) : Prop where
  nonneg : ∀ x, 0 ≤ x → 0 ≤ f x
  mono : ∀ x y, 0 ≤ x → x ≤ y → f x ≤ f y
  error : ∀ x, 0 ≤ x → |f x - x| ≤ ε * x

namespace Rounds

variable {ε δ x : K} {f g : K → K}

theorem le (h : Rounds ε f) (hx : 0 ≤ x) : f x ≤ (1 + ε) * x := by
  have := (abs_le.mp (h.error x hx)).2
  linarith

theorem ge (h : Rounds ε f) (hx : 0 ≤ x) : (1 - ε) * x ≤ f x := by
  have := (abs_le.mp (h.error x hx)).1
  linarith

theorem mono_error (h : Rounds ε f) (hεδ : ε ≤ δ) : Rounds δ f where
  nonneg := h.nonneg
  mono := h.mono
  error x hx := (h.error x hx).trans (mul_le_mul_of_nonneg_right hεδ hx)

/-- One rounding after another. -/
theorem comp (hg : Rounds δ g) (hf : Rounds ε f) (hδ : 0 ≤ δ) :
    Rounds (ε + δ * (1 + ε)) fun x => g (f x) where
  nonneg x hx := hg.nonneg _ (hf.nonneg x hx)
  mono x y hx hxy := hg.mono _ _ (hf.nonneg x hx) (hf.mono x y hx hxy)
  error x hx := by
    have hfx := hf.nonneg x hx
    calc |g (f x) - x| = |(g (f x) - f x) + (f x - x)| := by rw [sub_add_sub_cancel]
      _ ≤ |g (f x) - f x| + |f x - x| := abs_add_le _ _
      _ ≤ δ * f x + ε * x := add_le_add (hg.error _ hfx) (hf.error x hx)
      _ ≤ δ * ((1 + ε) * x) + ε * x := by
          linarith [mul_le_mul_of_nonneg_left (hf.le hx) hδ]
      _ = (ε + δ * (1 + ε)) * x := by ring

/-- Rounding in another unit. -/
theorem scaled (h : Rounds ε f) {c : K} (hc : 0 < c) : Rounds ε fun x => f (x / c) * c where
  nonneg x hx := mul_nonneg (h.nonneg _ (div_nonneg hx hc.le)) hc.le
  mono x y hx hxy := mul_le_mul_of_nonneg_right
    (h.mono _ _ (div_nonneg hx hc.le) (div_le_div_of_nonneg_right hxy hc.le)) hc.le
  error x hx := by
    have herror := h.error (x / c) (div_nonneg hx hc.le)
    have hsplit : f (x / c) * c - x = (f (x / c) - x / c) * c := by
      rw [sub_mul, div_mul_cancel₀ _ hc.ne']
    calc |f (x / c) * c - x| = |f (x / c) - x / c| * c := by rw [hsplit, abs_mul, abs_of_pos hc]
      _ ≤ ε * (x / c) * c := mul_le_mul_of_nonneg_right herror hc.le
      _ = ε * x := by rw [mul_assoc, div_mul_cancel₀ _ hc.ne']

end Rounds

end

/-! ## Significant digits -/

variable [FloorRing K]

/-- The place value of the last of `p` digits. -/
def unit (β p : ℕ) (x : K) : K :=
  (β : K) ^ (Int.log β x + 1 - p)

/-- The nearest number of `p` digits. -/
def significant (β p : ℕ) (x : K) : K :=
  roundEven (x / unit β p x) * unit β p x

variable [IsStrictOrderedRing K] {β p : ℕ} {x y : K}

@[simp] theorem significant_zero : significant β p (0 : K) = 0 := by
  rw [significant, zero_div, ← Int.cast_zero, roundEven_intCast, Int.cast_zero, zero_mul]

section

variable (hβ : 1 < β)
include hβ

omit [FloorRing K] in
theorem base_pos : (0 : K) < β :=
  Nat.cast_pos.mpr (Nat.zero_lt_one.trans hβ)

theorem one_lt_base : (1 : K) < β :=
  Nat.one_lt_cast.mpr hβ

theorem unit_pos (p : ℕ) (x : K) : 0 < unit β p x :=
  zpow_pos (base_pos hβ) _

/-- The units of a number make up the power of the base above it. -/
theorem pow_mul_unit (p : ℕ) (x : K) :
    ((β ^ p : ℕ) : K) * unit β p x = (β : K) ^ (Int.log β x + 1) := by
  rw [unit, Nat.cast_pow, ← zpow_natCast, ← zpow_add₀ (base_pos hβ).ne']
  congr 1
  omega

theorem pow_pred_mul_unit (hp : 0 < p) (x : K) :
    ((β ^ (p - 1) : ℕ) : K) * unit β p x = (β : K) ^ Int.log β x := by
  rw [unit, Nat.cast_pow, ← zpow_natCast, ← zpow_add₀ (base_pos hβ).ne']
  congr 1
  omega

/-- A unit is a fraction of the number. -/
theorem unit_le (p : ℕ) (hx : 0 < x) : unit β p x ≤ x * (β : K) ^ (1 - p : ℤ) := by
  have hpow : unit β p x = (β : K) ^ Int.log β x * (β : K) ^ (1 - p : ℤ) := by
    rw [unit, ← zpow_add₀ (base_pos hβ).ne']
    congr 1
    omega
  rw [hpow]
  exact mul_le_mul_of_nonneg_right (Int.zpow_log_le_self hβ hx) (zpow_pos (base_pos hβ) _).le

/-- In units a number has `p` digits before the point. -/
theorem scaled_lt (x : K) : x / unit β p x < (β ^ p : ℕ) := by
  rw [div_lt_iff₀ (unit_pos hβ p x), pow_mul_unit hβ]
  exact Int.lt_zpow_succ_log_self hβ x

theorem le_scaled (hp : 0 < p) (hx : 0 < x) : ((β ^ (p - 1) : ℕ) : K) ≤ x / unit β p x := by
  rw [le_div_iff₀ (unit_pos hβ p x), pow_pred_mul_unit hβ hp]
  exact Int.zpow_log_le_self hβ hx

/-- Rounding does not leave the powers of the base around a number. -/
theorem significant_le_zpow (x : K) : significant β p x ≤ (β : K) ^ (Int.log β x + 1) := by
  have hround : roundEven (x / unit β p x) ≤ ((β ^ p : ℕ) : ℤ) := by
    rw [← roundEven_intCast (K := K) ((β ^ p : ℕ) : ℤ)]
    exact roundEven_mono (by exact_mod_cast (scaled_lt hβ x).le)
  rw [significant, ← pow_mul_unit hβ p x]
  exact mul_le_mul_of_nonneg_right (by exact_mod_cast hround) (unit_pos hβ p x).le

theorem zpow_le_significant (hp : 0 < p) (hx : 0 < x) :
    (β : K) ^ Int.log β x ≤ significant β p x := by
  have hround : ((β ^ (p - 1) : ℕ) : ℤ) ≤ roundEven (x / unit β p x) := by
    rw [← roundEven_intCast (K := K) ((β ^ (p - 1) : ℕ) : ℤ)]
    exact roundEven_mono (by exact_mod_cast le_scaled hβ hp hx)
  rw [significant, ← pow_pred_mul_unit hβ hp x]
  exact mul_le_mul_of_nonneg_right (by exact_mod_cast hround) (unit_pos hβ p x).le

theorem significant_pos (hp : 0 < p) (hx : 0 < x) : 0 < significant β p x :=
  (zpow_pos (base_pos hβ) _).trans_le (zpow_le_significant hβ hp hx)

theorem significant_nonneg (hx : 0 ≤ x) : 0 ≤ significant β p x := by
  have hunit := unit_pos hβ p x
  exact mul_nonneg (Int.cast_nonneg (roundEven_nonneg (div_nonneg hx hunit.le))) hunit.le

/-- Rounding keeps the order: within one power of the base the units are the
same, and between two the power itself is in between. -/
theorem significant_mono (hp : 0 < p) (hx : 0 ≤ x) (hxy : x ≤ y) :
    significant β p x ≤ significant β p y := by
  rcases hx.eq_or_lt with rfl | hx
  · rw [significant_zero]
    exact significant_nonneg hβ hxy
  · rcases (Int.log_mono_right (b := β) hx hxy).eq_or_lt with hlog | hlog
    · have hunit : unit β p y = unit β p x := by rw [unit, unit, hlog]
      have hscaled : x / unit β p x ≤ y / unit β p x :=
        div_le_div_of_nonneg_right hxy (unit_pos hβ p x).le
      rw [significant, significant, hunit]
      exact mul_le_mul_of_nonneg_right (Int.cast_le.mpr (roundEven_mono hscaled))
        (unit_pos hβ p x).le
    · calc significant β p x ≤ (β : K) ^ (Int.log β x + 1) := significant_le_zpow hβ x
        _ ≤ (β : K) ^ Int.log β y := zpow_le_zpow_right₀ (one_lt_base hβ).le hlog
        _ ≤ significant β p y := zpow_le_significant hβ hp (hx.trans_le hxy)

theorem abs_significant_sub_le (hx : 0 ≤ x) :
    |significant β p x - x| ≤ (β : K) ^ (1 - p : ℤ) / 2 * x := by
  rcases hx.eq_or_lt with rfl | hx
  · simp
  · have hunit := unit_pos hβ p x
    have hsplit : significant β p x - x =
        (roundEven (x / unit β p x) - x / unit β p x) * unit β p x := by
      rw [sub_mul, div_mul_cancel₀ _ hunit.ne', significant]
    calc |significant β p x - x|
        = |roundEven (x / unit β p x) - x / unit β p x| * unit β p x := by
          rw [hsplit, abs_mul, abs_of_pos hunit]
      _ ≤ 1 / 2 * unit β p x :=
          mul_le_mul_of_nonneg_right (abs_roundEven_sub_le _) hunit.le
      _ ≤ 1 / 2 * (x * (β : K) ^ (1 - p : ℤ)) :=
          mul_le_mul_of_nonneg_left (unit_le hβ p hx) (by norm_num)
      _ = (β : K) ^ (1 - p : ℤ) / 2 * x := by ring

/-- A number of `p` digits is its own rounding. -/
theorem significant_of_digits {n : ℕ} (hn : n < β ^ p) : significant β p (n : K) = n := by
  rcases Nat.eq_zero_or_pos n with rfl | hpos
  · rw [Nat.cast_zero, significant_zero]
  · have hlog : Int.log β (n : K) + 1 ≤ p := by
      rw [Int.log_natCast]
      exact_mod_cast Nat.log_lt_of_lt_pow hpos.ne' hn
    -- the unit is one over a power of the base
    obtain ⟨k, hk⟩ := Int.eq_ofNat_of_zero_le (sub_nonneg.mpr hlog)
    have hunit : unit β p (n : K) = ((β : K) ^ k)⁻¹ := by
      rw [unit, ← zpow_natCast, ← zpow_neg]
      congr 1
      omega
    have hscaled : (n : K) / unit β p (n : K) = ((n * β ^ k : ℕ) : ℤ) := by
      rw [hunit, div_inv_eq_mul]
      push_cast
      rfl
    rw [significant, hscaled, roundEven_intCast, ← hscaled,
      div_mul_cancel₀ _ (unit_pos hβ p _).ne']

/-- A rounding is a number of `p` digits. -/
theorem exists_digits (hp : 0 < p) (hx : 0 < x) :
    ∃ n : ℕ, significant β p x = n * unit β p (significant β p x) := by
  have hlower := zpow_le_significant hβ hp hx
  have hupper := significant_le_zpow (p := p) hβ x
  have hpos := significant_pos hβ hp hx
  rcases ((Int.zpow_le_iff_le_log hβ hpos).mp hlower).eq_or_lt with hlog | hlog
  · have hunit : unit β p (significant β p x) = unit β p x := by rw [unit, unit, hlog]
    obtain ⟨n, hn⟩ := Int.eq_ofNat_of_zero_le
      (roundEven_nonneg (div_nonneg hx.le (unit_pos hβ p x).le))
    refine ⟨n, ?_⟩
    rw [hunit, significant, hn, Int.cast_natCast]
  · -- rounded up to the power of the base above the number
    have hge : (β : K) ^ (Int.log β x + 1) ≤ significant β p x :=
      (Int.zpow_le_iff_le_log hβ hpos).mpr hlog
    have heq := le_antisymm hupper hge
    refine ⟨β ^ (p - 1), ?_⟩
    rw [pow_pred_mul_unit hβ hp, heq, Int.log_zpow hβ]

end

theorem rounds_significant (hβ : 1 < β) (hp : 0 < p) :
    Rounds ((β : K) ^ (1 - p : ℤ) / 2) (significant β p) where
  nonneg _ := significant_nonneg hβ
  mono _ _ := significant_mono hβ hp
  error _ := abs_significant_sub_le hβ

end BranchPrediction.Rounding
