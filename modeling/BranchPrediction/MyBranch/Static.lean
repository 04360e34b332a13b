import BranchPrediction.MyBranch.Regret

/-!
# Against predictors that do not learn

The best prediction that is fixed for a branch once and for all misses the
outcome that the branch has less often (`minority`).  From whatever state, each of
the three predictors has at most two misses to lose on one outcome, and gains no
more than that back at every other one; so it errs at most twice as often as the
fixed prediction, and as one that is fixed anew for each part of the run, up to
two misses for every part.
-/

namespace BranchPrediction.MyBranch

open Automata

/-- The misses of the best fixed prediction. -/
def minority (l : List Bool) : ℕ :=
  min (l.count true) (l.count false)

namespace Replay

/-- What the last outcome has to lose on an outcome. -/
def owedLast (b : Bool) (r : Replay) : ℕ :=
  if r.last = some !b then 1 else 0

/-- What the chooser has to lose: what the counter has, and the miss it is about
to make. -/
def owedChosen (b : Bool) (r : Replay) : ℕ :=
  max (r.two.lag 2 b) (if r.chosen = b then 0 else 1)

/-- A training on the other outcome adds one to a lag. -/
theorem lag_train_not (c : SatCounter 0 3) (b : Bool) :
    (c.train !b).lag 2 b ≤ c.lag 2 b + 1 := by
  have hlo := c.lo_le
  have hhi := c.le_hi
  cases b <;> simp only [SatCounter.lag, lag, SatCounter.val_train, Bool.not_true, Bool.not_false,
    if_true, Bool.false_eq_true, if_false] <;> omega

theorem lag_le_two (c : SatCounter 0 3) (b : Bool) : c.lag 2 b ≤ 2 := by
  have hlo := c.lo_le
  have hhi := c.le_hi
  cases b <;> simp only [SatCounter.lag, lag, if_true, Bool.false_eq_true, if_false] <;> omega

theorem owedChosen_le_two (r : Replay) (b : Bool) : r.owedChosen b ≤ 2 := by
  have := lag_le_two r.two b
  unfold owedChosen
  split <;> omega

/-! ### The counter -/

theorem two_on (r : Replay) (b : Bool) :
    miss id twoPred r b + (r.step b).two.lag 2 b ≤ r.two.lag 2 b := by
  have htrain : (r.step b).two.lag 2 b = r.two.lag 2 b - 1 :=
    SatCounter.lag_train (by decide) (by decide) b r.two
  have hpred := SatCounter.predict_eq_iff_lag_eq_zero 2 b r.two
  have hmiss : miss id twoPred r b = if r.twoPred = b then 0 else 1 := rfl
  rw [htrain, hmiss]
  by_cases h : r.twoPred = b
  · rw [if_pos h]
    omega
  · have : r.two.lag 2 b ≠ 0 := fun hzero => h (hpred.mpr hzero)
    rw [if_neg h]
    omega

theorem two_off (r : Replay) (b : Bool) :
    miss id twoPred r (!b) + (r.step !b).two.lag 2 b ≤ 2 + r.two.lag 2 b := by
  have hmiss := miss_le_one id twoPred r !b
  have hlag : (r.step !b).two.lag 2 b ≤ r.two.lag 2 b + 1 := lag_train_not r.two b
  omega

/-! ### The chooser -/

/-- Once the counter has caught up, the chooser has nothing to lose. -/
theorem chosen_on (r : Replay) (b : Bool) :
    miss id chosen r b + (r.step b).owedChosen b ≤ r.owedChosen b := by
  have htrain : (r.step b).two.lag 2 b = r.two.lag 2 b - 1 :=
    SatCounter.lag_train (by decide) (by decide) b r.two
  have hle := lag_le_two r.two b
  have hmiss : miss id chosen r b = if r.chosen = b then 0 else 1 := rfl
  unfold owedChosen
  rw [htrain, hmiss]
  by_cases hlag : r.two.lag 2 b ≤ 1
  · have htwo : (r.step b).twoPred = b :=
      (SatCounter.predict_eq_iff_lag_eq_zero 2 b _).mpr (by rw [htrain]; omega)
    rw [if_pos (chosen_step_of_twoPred htwo)]
    split <;> omega
  · split <;> split <;> omega

theorem chosen_off (r : Replay) (b : Bool) :
    miss id chosen r (!b) + (r.step !b).owedChosen b ≤ 2 + r.owedChosen b := by
  have hmiss := miss_le_one id chosen r !b
  have hlag : (r.step !b).two.lag 2 b ≤ r.two.lag 2 b + 1 := lag_train_not r.two b
  unfold owedChosen
  split <;> split <;> omega

/-! ### The last outcome -/

theorem last_on (r : Replay) (b : Bool) : r.miss1 b + (r.step b).owedLast b ≤ r.owedLast b := by
  have hstep : (r.step b).owedLast b = 0 := by simp [owedLast, step]
  rw [hstep, miss1, owedLast]
  cases r.last with
  | none => simp
  | some a => cases a <;> cases b <;> simp

theorem last_off (r : Replay) (b : Bool) :
    r.miss1 (!b) + (r.step !b).owedLast b ≤ 2 + r.owedLast b := by
  have hstep : (r.step !b).owedLast b = 1 := by simp [owedLast, step]
  have hmiss : r.miss1 (!b) ≤ 1 := by
    unfold miss1
    split
    · exact Nat.zero_le _
    · split <;> omega
  omega

/-! ### Against a fixed prediction -/

/-- From any state, the three predictors against a fixed one. -/
theorem runCost_le_owed (r : Replay) (b : Bool) (l : List Bool) :
    runCost step miss1 r l ≤ 2 * l.count (!b) + r.owedLast b ∧
      runCost step (miss id twoPred) r l ≤ 2 * l.count (!b) + r.two.lag 2 b ∧
      runCost step (miss id chosen) r l ≤ 2 * l.count (!b) + r.owedChosen b := by
  refine ⟨?_, ?_, ?_⟩
  · exact runCost_le_count (φ := owedLast b) (fun r => last_on r b) (fun r => last_off r b) r l
  · exact runCost_le_count (φ := fun r => r.two.lag 2 b) (fun r => two_on r b)
      (fun r => two_off r b) r l
  · exact runCost_le_count (φ := owedChosen b) (fun r => chosen_on r b)
      (fun r => chosen_off r b) r l

/-- From any state, against the best one. -/
theorem runCost_le_minority (r : Replay) (l : List Bool) :
    runCost step miss1 r l ≤ 2 * minority l + 1 ∧
      runCost step (miss id twoPred) r l ≤ 2 * minority l + 2 ∧
      runCost step (miss id chosen) r l ≤ 2 * minority l + 2 := by
  obtain ⟨hlast, htwo, hchosen⟩ := runCost_le_owed r true l
  obtain ⟨hlast', htwo', hchosen'⟩ := runCost_le_owed r false l
  have howed : ∀ b, r.owedLast b ≤ 1 := fun b => by
    unfold owedLast
    split <;> omega
  have hlag := lag_le_two r.two
  have hmax := r.owedChosen_le_two
  simp only [Bool.forall_bool, Bool.not_false, Bool.not_true] at *
  unfold minority
  omega

end Replay

/-- From the initial globals, where only the counter and the chooser owe a miss, on
branches that are not taken. -/
theorem misses_le_minority (l : List Bool) :
    changes l ≤ 2 * minority l ∧ twoBitMisses l ≤ 2 * minority l + 1 ∧
      chooserMisses l ≤ 2 * minority l + 1 := by
  obtain ⟨hlast, htwo, hchosen⟩ := Replay.runCost_le_owed .cold true l
  obtain ⟨hlast', htwo', hchosen'⟩ := Replay.runCost_le_owed .cold false l
  have howed : ∀ b, Replay.owedLast b .cold = 0 ∧ Replay.cold.two.lag 2 b ≤ 1 ∧
      Replay.owedChosen b .cold ≤ 1 := by
    decide
  rw [runCost_miss1] at hlast hlast'
  rw [runCost_twoPred] at htwo htwo'
  change chooserMisses l ≤ _ at hchosen hchosen'
  simp only [Bool.forall_bool, Bool.not_false, Bool.not_true] at *
  unfold minority
  omega

/-! ## Over the branches of a stream -/

theorem outcomes_flatten (range : Range) (parts : List (List Event)) (ip : ADDRINT) :
    range.outcomes parts.flatten ip = (parts.map fun es => range.outcomes es ip).flatten := by
  induction parts with
  | nil => rfl
  | cons es parts ih =>
      rw [List.flatten_cons, range.outcomes_append, ih, List.map_cons, List.flatten_cons]

/-- **The predictors err at most twice as often as the best fixed ones**, from the
initial globals and over any part of a run. -/
theorem static_competitive (range : Range) :
    (∀ es, miss1 (run range es {}) ≤
          2 * (∑ ip ∈ range.branches es, minority (range.outcomes es ip) : ℕ) ∧
        miss2 (run range es {}) ≤
          2 * (∑ ip ∈ range.branches es, minority (range.outcomes es ip) : ℕ) +
            (range.branches es).card ∧
        missH (run range es {}) ≤
          2 * (∑ ip ∈ range.branches es, minority (range.outcomes es ip) : ℕ) +
            (range.branches es).card) ∧
      ∀ past (parts : List (List Event)) ip,
        contributed range miss1 ip (run range past {}) parts.flatten ≤
            ((parts.map fun es => 2 * minority (range.outcomes es ip) + 1).sum : ℕ) ∧
          contributed range miss2 ip (run range past {}) parts.flatten ≤
            ((parts.map fun es => 2 * minority (range.outcomes es ip) + 2).sum : ℕ) ∧
          contributed range missH ip (run range past {}) parts.flatten ≤
            ((parts.map fun es => 2 * minority (range.outcomes es ip) + 2).sum : ℕ) := by
  constructor
  · intro es
    have h1 := miss1_run range es
    have h2 := miss2_run range es
    have hH := missH_run range es
    have hlast := sum_le_two_mul (range.branches es) fun ip =>
      (misses_le_minority (range.outcomes es ip)).1
    have htwo := sum_le_two_mul_add_card (range.branches es) fun ip =>
      (misses_le_minority (range.outcomes es ip)).2.1
    have hchosen := sum_le_two_mul_add_card (range.branches es) fun ip =>
      (misses_le_minority (range.outcomes es ip)).2.2
    unfold miss1 miss2 missH
    omega
  · intro past parts ip
    obtain ⟨h1, h2, hH⟩ := contributed_run range past parts.flatten ip
    have hparts : ∀ c : ℕ, (parts.map fun es => 2 * minority (range.outcomes es ip) + c) =
        (parts.map fun es => range.outcomes es ip).map fun l => 2 * minority l + c := fun c => by
      rw [List.map_map]
      rfl
    rw [h1, h2, hH, outcomes_flatten, hparts, hparts]
    exact ⟨Nat.cast_le.mpr (runCost_flatten_le (fun r l => (Replay.runCost_le_minority r l).1) _ _),
      Nat.cast_le.mpr (runCost_flatten_le (fun r l => (Replay.runCost_le_minority r l).2.1) _ _),
      Nat.cast_le.mpr (runCost_flatten_le (fun r l => (Replay.runCost_le_minority r l).2.2) _ _)⟩

end BranchPrediction.MyBranch
