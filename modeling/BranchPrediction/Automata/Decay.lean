import Mathlib.Algebra.Order.Group.Nat
import Mathlib.Tactic.Ring

/-!
# Values that are halved by a clock

A clock ticks whenever it reaches a multiple of its period, and a value that
nothing else moves is halved at every tick.  How far the period the clock starts
in has run makes a difference of one tick only: `n` steps hold at most one tick if
they are no more than a period (`ticks_le_one`), and at least two if they are two
periods (`two_le_ticks`).
-/

namespace BranchPrediction.Automata

/-- The ticks among the next `n` steps of a clock that shows `c`. -/
def ticks (period c n : ℕ) : ℕ :=
  (c + n) / period - c / period

/-- A value after the next `n` steps of a clock that shows `c`. -/
def decayed (period c n v : ℕ) : ℕ :=
  v / 2 ^ ticks period c n

section

variable {period : ℕ} (c n v : ℕ)

@[simp] theorem ticks_zero : ticks period c 0 = 0 := Nat.sub_self _

theorem ticks_succ : ticks period c (n + 1) =
    ticks period c n + if (c + n + 1) % period = 0 then 1 else 0 := by
  have hle : c / period ≤ (c + n) / period := Nat.div_le_div_right (Nat.le_add_right c n)
  unfold ticks
  rw [← Nat.add_assoc, Nat.succ_div]
  simp only [Nat.dvd_iff_mod_eq_zero]
  split <;> omega

theorem ticks_le_one (hperiod : 0 < period) (hn : n ≤ period) : ticks period c n ≤ 1 := by
  have hle : (c + n) / period ≤ c / period + 1 := by
    calc (c + n) / period
        ≤ (c + period) / period := Nat.div_le_div_right (Nat.add_le_add_left hn c)
      _ = c / period + 1 := Nat.add_div_right c hperiod
  unfold ticks
  omega

theorem two_le_ticks (hperiod : 0 < period) (hn : 2 * period ≤ n) : 2 ≤ ticks period c n := by
  have hle : c / period + 2 ≤ (c + n) / period := by
    calc c / period + 2
        = (c + period + period) / period := by
          rw [Nat.add_div_right _ hperiod, Nat.add_div_right _ hperiod]
      _ ≤ (c + n) / period := Nat.div_le_div_right (by omega)
  unfold ticks
  omega

@[simp] theorem decayed_zero : decayed period c 0 v = v := by
  rw [decayed, ticks_zero, Nat.pow_zero, Nat.div_one]

/-- A step halves the value if the clock ticks. -/
theorem decayed_succ : decayed period c (n + 1) v =
    if (c + n + 1) % period = 0 then decayed period c n v / 2 else decayed period c n v := by
  unfold decayed
  rw [ticks_succ]
  split
  · rw [Nat.pow_succ, Nat.div_div_eq_div_mul]
  · rfl

theorem decayed_succ_le : decayed period c (n + 1) v ≤ decayed period c n v := by
  rw [decayed_succ]
  split
  · exact Nat.div_le_self _ _
  · exact Nat.le_refl _

variable {n v}

/-- Within a period at least half is left. -/
theorem half_le_decayed (hperiod : 0 < period) (hn : n ≤ period) :
    v / 2 ≤ decayed period c n v := by
  have hpow : 2 ^ ticks period c n ≤ 2 ^ 1 :=
    Nat.pow_le_pow_right (by decide) (ticks_le_one c n hperiod hn)
  exact Nat.div_le_div_left hpow (Nat.two_pow_pos _)

/-- After two periods at most a quarter is. -/
theorem decayed_le_quarter (hperiod : 0 < period) (hn : 2 * period ≤ n) :
    decayed period c n v ≤ v / 4 := by
  have hpow : 2 ^ 2 ≤ 2 ^ ticks period c n :=
    Nat.pow_le_pow_right (by decide) (two_le_ticks c n hperiod hn)
  exact Nat.div_le_div_left hpow (by decide)

end

end BranchPrediction.Automata
