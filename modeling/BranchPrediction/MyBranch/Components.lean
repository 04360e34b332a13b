import BranchPrediction.MyBranch.Regret

/-!
# The two components against each other

After an event that either of them predicted, the last outcome and the counter
of a branch agree: both predict what just happened.  So each follows the other
in the sense of `runCost_follower_le`, and neither errs more than twice as often
as the other, up to one miss for a start at which they differ.

From the initial globals the start costs nothing one way.  The other way it
costs a miss for each branch, since a first execution counts for the counter and
not for the last outcome.
-/

namespace BranchPrediction.MyBranch

open Automata

namespace Replay

theorem lastPred_step (r : Replay) (outcome : Bool) : (r.step outcome).lastPred = outcome := rfl

theorem last_le_two {r : Replay} (hr : r.Warm) (l : List Bool) :
    runCost step miss1 r l ≤
      2 * runCost step (miss id twoPred) r l + if r.lastPred = r.twoPred then 0 else 1 := by
  rw [runCost_miss1_of_warm hr]
  apply runCost_follower_le (fun s a _ => warm_step s a) _ hr
  intro s a _ h
  exact (lastPred_step s a).trans (twoPred_step_of_two h).symm

theorem two_le_last {r : Replay} (hr : r.Warm) (l : List Bool) :
    runCost step (miss id twoPred) r l ≤
      2 * runCost step miss1 r l + if r.twoPred = r.lastPred then 0 else 1 := by
  rw [runCost_miss1_of_warm hr]
  apply runCost_follower_le (fun s a _ => warm_step s a) _ hr
  intro s a hs h
  exact (twoPred_step_of_last hs h).trans (lastPred_step s a).symm

theorem agree_of_first (b : Bool) : (cold.step b).lastPred = (cold.step b).twoPred := by
  cases b <;> decide

/-- From a cold branch the last outcome never errs more than twice as often as
the counter. -/
theorem changes_le (l : List Bool) : changes l ≤ 2 * twoBitMisses l := by
  rw [← runCost_miss1, ← runCost_twoPred]
  cases l with
  | nil => exact Nat.zero_le _
  | cons b l =>
      have hfirst : cold.miss1 b = 0 := rfl
      have hrest := last_le_two (warm_step cold b) l
      rw [if_pos (agree_of_first b)] at hrest
      rw [runCost_cons, runCost_cons, hfirst]
      omega

/-- From a cold branch the first execution can cost the counter one miss that
the last outcome is not charged. -/
theorem twoBitMisses_le (l : List Bool) : twoBitMisses l ≤ 2 * changes l + 1 := by
  rw [← runCost_miss1, ← runCost_twoPred]
  cases l with
  | nil => exact Nat.zero_le _
  | cons b l =>
      have hfirst := miss_le_one id twoPred cold b
      have hrest := two_le_last (warm_step cold b) l
      rw [if_pos (agree_of_first b).symm] at hrest
      rw [runCost_cons, runCost_cons]
      omega

theorem warm_after {l : List Bool} (hl : l ≠ []) : (after l).Warm := by
  rcases cold_or_warm_after l with hcold | hwarm
  · have hlast : l.getLast? = none := by
      rw [← last_after, hcold]
      rfl
    exact absurd (List.getLast?_eq_none_iff.mp hlast) hl
  · exact hwarm

end Replay

/-- A branch's part of the misses of either component over a continuation, if it
was executed before. -/
theorem contributed_le_of_executed {range : Range} {past : List Event} {ip : ADDRINT}
    (h : ip ∈ range.branches past) (es : List Event) :
    contributed range miss2 ip (run range past {}) es ≤
        2 * contributed range miss1 ip (run range past {}) es + 1 ∧
      contributed range miss1 ip (run range past {}) es ≤
        2 * contributed range miss2 ip (run range past {}) es + 1 := by
  obtain ⟨h1, h2, -⟩ := contributed_run range past es ip
  rw [h1, h2]
  have hwarm := Replay.warm_after (range.mem_branches_iff_outcomes.mp h)
  have hlast := Replay.last_le_two hwarm (range.outcomes es ip)
  have htwo := Replay.two_le_last hwarm (range.outcomes es ip)
  constructor
  · split at htwo <;> omega
  · split at hlast <;> omega

/-- **The 1-bit and the 2-bit predictor are within a factor two of each other.** -/
theorem components_within_two (range : Range) :
    (∀ es, miss1 (run range es {}) ≤ 2 * miss2 (run range es {}) ∧
      miss2 (run range es {}) ≤ 2 * miss1 (run range es {}) + (range.branches es).card) ∧
    ∀ past es ip, ip ∈ range.branches past →
      contributed range miss2 ip (run range past {}) es ≤
          2 * contributed range miss1 ip (run range past {}) es + 1 ∧
        contributed range miss1 ip (run range past {}) es ≤
          2 * contributed range miss2 ip (run range past {}) es + 1 := by
  constructor
  · intro es
    have hm1 := miss1_run range es
    have hm2 := miss2_run range es
    have hlast := sum_le_two_mul (range.branches es) fun ip =>
      Replay.changes_le (range.outcomes es ip)
    have htwo := sum_le_two_mul_add_card (range.branches es) fun ip =>
      Replay.twoBitMisses_le (range.outcomes es ip)
    unfold miss2 miss1
    omega
  · intro past es ip h
    exact contributed_le_of_executed h es

end BranchPrediction.MyBranch
