import Mathlib.Algebra.Order.Group.Int
import Mathlib.Algebra.Order.Group.Nat
import Mathlib.Tactic.Linarith

/-!
# Saturating counters

An integer kept between two bounds, moved one step up or down and stuck at
either end.  Read against a threshold it predicts a two-valued outcome, and
training moves it towards the outcome seen.  `lag` counts the trainings on one
outcome that are still missing before the counter predicts it.
-/

namespace BranchPrediction.Automata

/-- The trainings on an outcome that a value still lacks before it predicts it: the
upper outcome from the threshold on, the lower one below. -/
def lag (threshold : ℤ) (outcome : Bool) (value : ℤ) : ℕ :=
  if outcome then (threshold - value).toNat else (value + 1 - threshold).toNat

theorem lag_eq_zero_iff (threshold : ℤ) (outcome : Bool) (value : ℤ) :
    lag threshold outcome value = 0 ↔ (threshold ≤ value : Bool) = outcome := by
  cases outcome
  · simp only [decide_eq_false_iff_not, lag, Bool.false_eq_true, if_false]
    omega
  · simp only [decide_eq_true_eq, lag, if_true]
    omega

/-- An integer between `lo` and `hi`. -/
@[ext]
structure SatCounter (lo hi : ℤ) where
  val : ℤ
  lo_le : lo ≤ val
  le_hi : val ≤ hi
deriving DecidableEq

namespace SatCounter

variable {lo hi : ℤ}

/-- One step up, or stuck at the upper end. -/
def up (c : SatCounter lo hi) : SatCounter lo hi :=
  ⟨min (c.val + 1) hi, by have := c.lo_le; have := c.le_hi; omega, min_le_right _ _⟩

/-- One step down, or stuck at the lower end. -/
def down (c : SatCounter lo hi) : SatCounter lo hi :=
  ⟨max (c.val - 1) lo, le_max_right _ _, by have := c.lo_le; have := c.le_hi; omega⟩

/-- One step towards an outcome. -/
def train (outcome : Bool) (c : SatCounter lo hi) : SatCounter lo hi :=
  if outcome then c.up else c.down

/-- The outcome a counter predicts: the upper one from the threshold on. -/
def predict (threshold : ℤ) (c : SatCounter lo hi) : Bool :=
  threshold ≤ c.val

/-- The trainings on an outcome still missing before the counter predicts it. -/
def lag (threshold : ℤ) (outcome : Bool) (c : SatCounter lo hi) : ℕ :=
  Automata.lag threshold outcome c.val

theorem val_train (outcome : Bool) (c : SatCounter lo hi) :
    (c.train outcome).val = if outcome then min (c.val + 1) hi else max (c.val - 1) lo := by
  cases outcome <;> rfl

theorem predict_eq_iff_lag_eq_zero (threshold : ℤ) (outcome : Bool) (c : SatCounter lo hi) :
    c.predict threshold = outcome ↔ c.lag threshold outcome = 0 :=
  (lag_eq_zero_iff threshold outcome c.val).symm

/-- Training on an outcome shortens its lag, until there is none. -/
theorem lag_train {threshold : ℤ} (hlo : lo < threshold) (hhi : threshold ≤ hi) (outcome : Bool)
    (c : SatCounter lo hi) :
    (c.train outcome).lag threshold outcome = c.lag threshold outcome - 1 := by
  cases outcome <;>
    simp only [lag, Automata.lag, val_train, if_true, Bool.false_eq_true, if_false] <;> omega

/-- A counter that predicted an outcome still predicts it once trained on it. -/
theorem predict_train_of_eq {threshold : ℤ} (hlo : lo < threshold) (hhi : threshold ≤ hi)
    {outcome : Bool} {c : SatCounter lo hi} (h : c.predict threshold = outcome) :
    (c.train outcome).predict threshold = outcome := by
  rw [predict_eq_iff_lag_eq_zero] at h ⊢
  rw [lag_train hlo hhi, h]

end SatCounter

end BranchPrediction.Automata
