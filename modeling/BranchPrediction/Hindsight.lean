import BranchPrediction.MyBranch.Statistics
import BranchPrediction.MyTage.Step

/-!
# Which predictors see the outcome they are scored on

A predictor is scored without hindsight if, from one state, the event that takes
a branch and the event that does not are compared with the same prediction: then
exactly one of the two raises its counter of right predictions.

The 2-bit predictor, the hybrid and TAGE are scored so in every state.  The
1-bit predictor is not: without an entry its prediction is the outcome itself,
and both events raise its counter.  The hybrid does not inherit this, because
its selector starts at 2 and stays there until the 1-bit predictor has an entry.
-/

namespace BranchPrediction

/-- A counter of right predictions is raised by exactly one outcome exactly if
the prediction does not depend on the outcome. -/
theorem existsUnique_raised_iff {σ : Type*} {count : σ → ℕ} {s : σ} {next : Bool → σ}
    {pred : Bool → Bool}
    (hnext : ∀ outcome, count (next outcome) =
      count s + if pred outcome = outcome then 1 else 0) :
    (∃! outcome, count (next outcome) = count s + 1) ↔ pred true = pred false := by
  have hraised : ∀ outcome, count (next outcome) = count s + 1 ↔ pred outcome = outcome :=
    fun outcome => by
      rw [hnext]
      split <;> simp [*]
  simp only [hraised, ExistsUnique]
  cases ht : pred true <;> cases hf : pred false <;> simp [ht, hf]

namespace MyBranch

/-- The next execution of a branch is scored without hindsight: each counter of
right predictions is raised by exactly one outcome, and what is compared with
the outcome is the same for both. -/
structure Unforeseen (range : Range) (s : State) (ip target : ADDRINT) : Prop where
  correct : ∃! outcome, (step range s ⟨ip, target, outcome⟩).correct = s.correct + 1
  correct2 : ∃! outcome, (step range s ⟨ip, target, outcome⟩).correct2 = s.correct2 + 1
  correctH : ∃! outcome, (step range s ⟨ip, target, outcome⟩).correctH = s.correctH + 1
  pred1 : s.pred1 ip true = s.pred1 ip false
  finalPred : s.finalPred ip true = s.finalPred ip false

variable {range : Range} {ip : ADDRINT} (hip : range.Contains ip) (target : ADDRINT)
include hip

theorem correct_raised_iff (s : State) :
    (∃! outcome, (step range s ⟨ip, target, outcome⟩).correct = s.correct + 1) ↔
      s.pred1 ip true = s.pred1 ip false := by
  rw [pred1_eq, pred1_eq]
  exact existsUnique_raised_iff fun outcome => correct_step (e := ⟨ip, target, outcome⟩) hip s

theorem correct2_raised (s : State) :
    ∃! outcome, (step range s ⟨ip, target, outcome⟩).correct2 = s.correct2 + 1 := by
  have hraised := existsUnique_raised_iff fun outcome =>
    correct2_step (e := ⟨ip, target, outcome⟩) hip s
  exact hraised.mpr rfl

theorem correctH_raised_iff (s : State) :
    (∃! outcome, (step range s ⟨ip, target, outcome⟩).correctH = s.correctH + 1) ↔
      s.finalPred ip true = s.finalPred ip false := by
  rw [finalPred_eq, finalPred_eq]
  exact existsUnique_raised_iff fun outcome => correctH_step (e := ⟨ip, target, outcome⟩) hip s

omit hip

/-- The hybrid never uses the reading that sees the outcome. -/
theorem finalPred_unforeseen (range : Range) (es : List Event) (ip : ADDRINT) :
    (run range es {}).finalPred ip true = (run range es {}).finalPred ip false := by
  rw [finalPred_eq, finalPred_eq, (tracks_run range es ip).finalPred_eq,
    (tracks_run range es ip).finalPred_eq]

/-- The 1-bit prediction is the outcome itself exactly until the branch has run. -/
theorem pred1_unforeseen_iff (range : Range) (es : List Event) (ip : ADDRINT) :
    (run range es {}).pred1 ip true = (run range es {}).pred1 ip false ↔
      ip ∈ range.branches es := by
  rw [pred1_eq, pred1_eq, range.mem_branches_iff_outcomes]
  have hlast := (tracks_run range es ip).bht.trans (Replay.last_after _)
  unfold Slice.pred1
  rw [hlast]
  cases hout : (range.outcomes es ip).getLast? with
  | none => simp [List.getLast?_eq_none_iff.mp hout]
  | some outcome =>
      have : range.outcomes es ip ≠ [] := fun hnil => by simp [hnil] at hout
      simp [this]

end MyBranch

namespace MyTage

/-- The next execution of a branch raises `tageCorrect` for exactly one outcome.
What is compared with the outcome is `State.prediction`, which is not a function
of it. -/
theorem tageCorrect_raised {range : Range} {ip : ADDRINT} (hip : range.Contains ip)
    (target : ADDRINT) (s : State) :
    ∃! outcome, (step range s ⟨ip, target, outcome⟩).tageCorrect = s.tageCorrect + 1 := by
  have hraised := existsUnique_raised_iff fun outcome =>
    tageCorrect_step (e := ⟨ip, target, outcome⟩) hip s
  exact hraised.mpr rfl

end MyTage

/-- **The 1-bit predictor is scored in hindsight on first executions, and nothing
else ever is.** -/
theorem unforeseen_iff_executed (range : Range) (es : List Event) (ip target : ADDRINT)
    (hip : range.Contains ip) :
    (MyBranch.Unforeseen range (MyBranch.run range es {}) ip target ∧
        ∃! outcome, (MyTage.step range (MyTage.run range es {}) ⟨ip, target, outcome⟩).tageCorrect =
          (MyTage.run range es {}).tageCorrect + 1) ↔
      ip ∈ range.branches es := by
  rw [← MyBranch.pred1_unforeseen_iff]
  constructor
  · rintro ⟨h, -⟩
    exact h.pred1
  · intro h
    have hfinal := MyBranch.finalPred_unforeseen range es ip
    exact ⟨⟨(MyBranch.correct_raised_iff hip target _).mpr h,
      MyBranch.correct2_raised hip target _,
      (MyBranch.correctH_raised_iff hip target _).mpr hfinal, h, hfinal⟩,
      MyTage.tageCorrect_raised hip target _⟩

theorem unforeseen_iff_executed_four :
    MyBranch.Unforeseen ⟨1, 9⟩ (MyBranch.run ⟨1, 9⟩ [⟨4, 5, false⟩] {}) 4 5 :=
  ((unforeseen_iff_executed ⟨1, 9⟩ [⟨4, 5, false⟩] 4 5 (by decide)).mpr (by decide)).1

/-- Both outcomes of the first event of a run raise `correct`. -/
theorem hindsight_at_first_event :
    ¬ ∀ (range : Range) (s : MyBranch.State), MyBranch.Reachable range s →
      ∀ ip target, range.Contains ip → MyBranch.Unforeseen range s ip target := by
  intro h
  have hpred : MyBranch.State.pred1 {} 4 true = MyBranch.State.pred1 {} 4 false :=
    (h ⟨1, 9⟩ {} ⟨[], rfl⟩ 4 5 (by decide)).pred1
  exact absurd hpred (by decide)

end BranchPrediction
