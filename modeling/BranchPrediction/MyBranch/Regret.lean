import BranchPrediction.MyBranch.Statistics
import Mathlib.Algebra.Order.BigOperators.Group.Finset
import Mathlib.Algebra.BigOperators.Ring.Finset

/-!
# What the hybrid's choice costs

On one branch the last outcome, the counter and the chooser all predict an
outcome after an event at which the last outcome or the counter was right about
it (`twoPred_step_of_two`, `twoPred_step_of_last`, `chosen_step_of_twoPred`).  So
each of the three follows each of the other two in the sense of
`runCost_follower_le`, and errs at most twice as often, up to one miss for the state
the count starts in.

`hybrid_regret` sums this over the branches from the initial globals, where a
cold branch can cost the hybrid one miss that the 1-bit predictor is spared.
-/

namespace BranchPrediction.MyBranch

open Automata

namespace Replay

/-- The last-outcome prediction of a branch executed before. -/
def lastPred (r : Replay) : Bool :=
  r.last.getD true

/-- A branch executed before: its counter is at most one step away from its
last outcome. -/
def Warm (r : Replay) : Prop :=
  ∃ a, r.last = some a ∧ if a then 1 ≤ r.two.val else r.two.val ≤ 2

theorem warm_step (r : Replay) (outcome : Bool) : (r.step outcome).Warm := by
  refine ⟨outcome, rfl, ?_⟩
  have hlo := r.two.lo_le
  have hhi := r.two.le_hi
  simp only [step, SatCounter.val_train]
  cases outcome <;> simp only [Bool.false_eq_true, if_true, if_false] <;> omega

theorem cold_or_warm_after (l : List Bool) : after l = cold ∨ (after l).Warm := by
  induction l using List.reverseRecOn with
  | nil => exact Or.inl rfl
  | append_singleton l b _ => rw [after, List.foldl_concat]; exact Or.inr (warm_step _ _)

/-- All three predict an outcome once the counter does. -/
theorem chosen_step_of_twoPred {r : Replay} {outcome : Bool}
    (h : (r.step outcome).twoPred = outcome) : (r.step outcome).chosen = outcome := by
  unfold chosen
  rw [h]
  split <;> rfl

theorem twoPred_step_of_two {r : Replay} {outcome : Bool} (h : r.twoPred = outcome) :
    (r.step outcome).twoPred = outcome :=
  SatCounter.predict_train_of_eq (by decide) (by decide) h

theorem twoPred_step_of_last {r : Replay} {outcome : Bool} (hr : r.Warm)
    (h : r.lastPred = outcome) : (r.step outcome).twoPred = outcome := by
  obtain ⟨a, ha, htwo⟩ := hr
  rw [lastPred, ha, Option.getD_some] at h
  subst h
  simp only [twoPred, SatCounter.predict, step, SatCounter.val_train]
  cases a <;> simp only [Bool.false_eq_true, if_true, if_false] at htwo ⊢ <;>
    simp only [decide_eq_true_eq, decide_eq_false_iff_not] <;> omega

theorem miss1_eq_of_warm {r : Replay} (hr : r.Warm) (outcome : Bool) :
    r.miss1 outcome = miss id lastPred r outcome := by
  obtain ⟨a, ha, -⟩ := hr
  simp only [miss1, ha, miss, lastPred, Option.getD_some, id]

theorem runCost_miss1_of_warm {r : Replay} (hr : r.Warm) (l : List Bool) :
    runCost step miss1 r l = runCost step (miss id lastPred) r l := by
  have h : runCost step miss1 r l = runCost step (miss id lastPred) r (l.map id) :=
    runCost_simulation (R := fun r r' => r = r' ∧ r.Warm) id
      (fun r _ a h => h.1 ▸ ⟨rfl, warm_step r a⟩) (fun r _ a h => h.1 ▸ miss1_eq_of_warm h.2 a)
      ⟨rfl, hr⟩ l
  rwa [List.map_id] at h

/-! ### The chooser against each component -/

theorem chosen_le_two (r : Replay) (l : List Bool) :
    runCost step (miss id chosen) r l ≤
      2 * runCost step (miss id twoPred) r l + if r.chosen = r.twoPred then 0 else 1 := by
  have htrue : ∀ (s : Replay) (_ : Bool), True → True := fun _ _ => id
  exact runCost_follower_le htrue (fun _ _ _ h => (chosen_step_of_twoPred
    (twoPred_step_of_two h)).trans (twoPred_step_of_two h).symm) trivial l

theorem chosen_le_last {r : Replay} (hr : r.Warm) (l : List Bool) :
    runCost step (miss id chosen) r l ≤
      2 * runCost step miss1 r l + if r.chosen = r.lastPred then 0 else 1 := by
  rw [runCost_miss1_of_warm hr]
  exact runCost_follower_le (fun s a _ => warm_step s a)
    (fun _ _ hs h => chosen_step_of_twoPred (twoPred_step_of_last hs h)) hr l

/-- From a cold branch the chooser never errs more than twice as often as the
counter. -/
theorem chosen_le_two_cold (l : List Bool) :
    chooserMisses l ≤ 2 * twoBitMisses l := by
  have h := chosen_le_two cold l
  rw [if_pos (by decide), runCost_twoPred] at h
  exact h

/-- From a cold branch the first execution can cost the chooser one miss that
the last outcome is not charged. -/
theorem chosen_le_last_cold (l : List Bool) :
    chooserMisses l ≤ 2 * changes l + 1 := by
  rw [← runCost_miss1, chooserMisses]
  cases l with
  | nil => exact Nat.zero_le _
  | cons b l =>
      have hagree : (cold.step b).chosen = (cold.step b).lastPred := by cases b <;> decide
      have hrest := chosen_le_last (warm_step cold b) l
      have hfirst := miss_le_one id chosen cold b
      rw [if_pos hagree] at hrest
      rw [runCost_cons, runCost_cons]
      omega

end Replay

/-! ## A continuation, one branch at a time -/

/-- What the events of one branch add to a quantity over a continuation. -/
def contributed (range : Range) (q : State → ℤ) (ip : ADDRINT) : State → List Event → ℤ
  | _, [] => 0
  | s, e :: es =>
      (if range.key e = some ip then q (step range s e) - q s else 0) +
        contributed range q ip (step range s e) es

/-- The misses of the 1-bit predictor so far. -/
def miss1 (s : State) : ℤ := s.predictions - s.correct

/-- The misses of the 2-bit predictor so far. -/
def miss2 (s : State) : ℤ := s.pred2 - s.correct2

/-- The misses of the hybrid so far. -/
def missH (s : State) : ℤ := s.predH - s.correctH

theorem miss1_step {range : Range} {e : Event} (h : range.Contains e.ip) (s : State) :
    miss1 (step range s e) = miss1 s + wrong Slice.pred1 (slice s e.ip) e := by
  rw [miss1, (counters_step h s).2.1, correct_step h, miss1, wrong]
  split <;> push_cast <;> omega

theorem miss2_step {range : Range} {e : Event} (h : range.Contains e.ip) (s : State) :
    miss2 (step range s e) = miss2 s + wrong (fun c _ => c.pred2Val) (slice s e.ip) e := by
  rw [miss2, (counters_step h s).2.2.1, correct2_step h, miss2, wrong]
  split <;> push_cast <;> omega

theorem missH_step {range : Range} {e : Event} (h : range.Contains e.ip) (s : State) :
    missH (step range s e) = missH s + wrong Slice.finalPred (slice s e.ip) e := by
  rw [missH, (counters_step h s).2.2.2.1, correctH_step h, missH, wrong]
  split <;> push_cast <;> omega

/-- A score's part that one branch contributes is what its own run is charged. -/
theorem contributed_eq_runCost {range : Range} {q : State → ℤ} {pred : Slice → Bool → Bool}
    (hq : ∀ {e}, range.Contains e.ip → ∀ s,
      q (step range s e) = q s + wrong pred (slice s e.ip) e)
    (ip : ADDRINT) (s : State) (es : List Event) :
    contributed range q ip s es =
      runCost Slice.record (wrong pred) (slice s ip) (range.eventsOf es ip) := by
  induction es generalizing s with
  | nil => rfl
  | cons e es ih =>
      rw [contributed, ih, slice_step, range.eventsOf_cons]
      by_cases hkey : range.key e = some ip
      · obtain ⟨hin, rfl⟩ := range.key_eq_some_iff.mp hkey
        simp only [hkey, if_true, runCost_cons, hq hin s]
        push_cast
        rw [add_sub_cancel_left]
      · simp only [hkey, if_false, zero_add]

/-- From any reachable state, one branch's misses over a continuation. -/
theorem contributed_run (range : Range) (past es : List Event) (ip : ADDRINT) :
    let r := Replay.after (range.outcomes past ip)
    let l := range.outcomes es ip
    contributed range miss1 ip (run range past {}) es = runCost Replay.step Replay.miss1 r l ∧
      contributed range miss2 ip (run range past {}) es =
        runCost Replay.step (miss id Replay.twoPred) r l ∧
      contributed range missH ip (run range past {}) es =
        runCost Replay.step (miss id Replay.chosen) r l := by
  have h := tracks_run range past ip
  refine ⟨?_, ?_, ?_⟩
  · rw [contributed_eq_runCost miss1_step, h.runCost_pred1]
    rfl
  · rw [contributed_eq_runCost miss2_step, h.runCost_pred2Val]
    rfl
  · rw [contributed_eq_runCost missH_step, h.runCost_finalPred]
    rfl

/-- A branch's part of the hybrid's misses, against its part of either component's. -/
theorem contributed_missH_le (range : Range) (past es : List Event) (ip : ADDRINT) :
    contributed range missH ip (run range past {}) es ≤
        2 * contributed range miss1 ip (run range past {}) es + 1 ∧
      contributed range missH ip (run range past {}) es ≤
        2 * contributed range miss2 ip (run range past {}) es + 1 := by
  obtain ⟨h1, h2, hH⟩ := contributed_run range past es ip
  rw [h1, h2, hH]
  have htwo := Replay.chosen_le_two (Replay.after (range.outcomes past ip)) (range.outcomes es ip)
  have hlast : runCost Replay.step (miss id Replay.chosen) (Replay.after (range.outcomes past ip))
        (range.outcomes es ip) ≤
      2 * runCost Replay.step Replay.miss1 (Replay.after (range.outcomes past ip))
        (range.outcomes es ip) + 1 := by
    rcases Replay.cold_or_warm_after (range.outcomes past ip) with hcold | hwarm
    · rw [hcold, runCost_miss1]
      exact Replay.chosen_le_last_cold _
    · apply (Replay.chosen_le_last hwarm _).trans
      split <;> omega
  refine ⟨by exact_mod_cast hlast, ?_⟩
  split at htwo <;> omega

/-- A factor two on every branch is a factor two on their sum. -/
theorem sum_le_two_mul (K : Finset ADDRINT) {f g : ADDRINT → ℕ} (h : ∀ ip, f ip ≤ 2 * g ip) :
    ∑ ip ∈ K, f ip ≤ 2 * ∑ ip ∈ K, g ip := by
  calc ∑ ip ∈ K, f ip
      ≤ ∑ ip ∈ K, 2 * g ip := Finset.sum_le_sum fun ip _ => h ip
    _ = 2 * ∑ ip ∈ K, g ip := (Finset.mul_sum ..).symm

/-- One miss more on every branch is one more for each of them. -/
theorem sum_le_two_mul_add_card (K : Finset ADDRINT) {f g : ADDRINT → ℕ}
    (h : ∀ ip, f ip ≤ 2 * g ip + 1) : ∑ ip ∈ K, f ip ≤ 2 * ∑ ip ∈ K, g ip + K.card := by
  calc ∑ ip ∈ K, f ip
      ≤ ∑ ip ∈ K, (2 * g ip + 1) := Finset.sum_le_sum fun ip _ => h ip
    _ = 2 * ∑ ip ∈ K, g ip + K.card := by
        rw [Finset.sum_add_distrib, Finset.mul_sum, Finset.card_eq_sum_ones]

/-- **The hybrid never regrets its choice by more than a factor two.** -/
theorem hybrid_regret (range : Range) :
    (∀ es, missH (run range es {}) ≤ 2 * miss2 (run range es {}) ∧
      missH (run range es {}) ≤ 2 * miss1 (run range es {}) + (range.branches es).card) ∧
    ∀ past es ip, contributed range missH ip (run range past {}) es ≤
      2 * min (contributed range miss1 ip (run range past {}) es)
        (contributed range miss2 ip (run range past {}) es) + 2 := by
  constructor
  · intro es
    have hm1 := miss1_run range es
    have hm2 := miss2_run range es
    have hmH := missH_run range es
    have htwo := sum_le_two_mul (range.branches es) fun ip =>
      Replay.chosen_le_two_cold (range.outcomes es ip)
    have hlast := sum_le_two_mul_add_card (range.branches es) fun ip =>
      Replay.chosen_le_last_cold (range.outcomes es ip)
    unfold missH miss2 miss1
    omega
  · intro past es ip
    have h := contributed_missH_le range past es ip
    omega

end BranchPrediction.MyBranch
