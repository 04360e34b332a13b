import BranchPrediction.Dashboard.Script
import BranchPrediction.MyBranch.Choice

/-!
# The best accuracy

`MyBranch` publishes the hybrid as the winner and its accuracy as the best one,
whatever the other accuracies are; the dashboard shows the greater of the best
accuracies of the two tools, next to a chart of all four.

What is published is right exactly for the streams on which choosing pays, and
there are streams on which it does not.
-/

namespace BranchPrediction

open Json Dashboard

section

variable (range : Range) (es : List Event)

/-- The document `MyBranch` writes after a stream. -/
def branchDocument : Document :=
  MyBranch.document (MyBranch.run range es {})

/-- The document `MyTage` writes after a stream. -/
def tageDocument : Document :=
  MyTage.document (MyTage.run range es {})

/-- The page with the two documents, the accuracies being the exact ones. -/
def publishedPage : Page :=
  loaded exact (MyBranch.run range es {}) (MyTage.run range es {})

/-- The greater of the two best accuracies. -/
def bestPublished : ℚ :=
  max (exact (branchDocument range es).bestAccuracy) (exact (tageDocument range es).bestAccuracy)

/-- The published winner is a winner: its accuracy is the greatest one listed, and
what the dashboard shows as the best accuracy is the greatest of the accuracies it
charts.  Accuracies are compared exactly. -/
structure Published : Prop where
  best : IsGreatest {q | q ∈ (branchDocument range es).predictors.map fun p => exact p.2}
    (exact (branchDocument range es).bestAccuracy)
  winner : ((branchDocument range es).winner, (branchDocument range es).bestAccuracy) ∈
    (branchDocument range es).predictors
  card : (publishedPage range es).innerText "best" =
    some (.str (.ofList (toFixed 1 (some (bestPublished range es))) ++ "%"))
  shown : ∃ values : List ℚ,
    (publishedPage range es).bars.map Bar.value = values.map (fun q => some (.num q)) ∧
      values.length = 4 ∧ IsGreatest {q | q ∈ values} (bestPublished range es)

end

variable {range : Range} {es : List Event}

theorem total_pos (hes : ∃ e ∈ es, range.Contains e.ip) :
    0 < (MyBranch.run range es {}).total := by
  obtain ⟨e, he, hin⟩ := hes
  have hmem : e.ip ∈ range.branches es :=
    range.mem_branches_iff.mpr ⟨e, he, range.key_of_contains hin⟩
  have hne : range.outcomes es e.ip ≠ [] := range.mem_branches_iff_outcomes.mp hmem
  rw [MyBranch.total_run]
  exact Finset.sum_pos' (fun _ _ => Nat.zero_le _) ⟨e.ip, hmem, List.length_pos_of_ne_nil hne⟩

/-- The published accuracy is the greatest exactly if the hybrid is right at
least as often as either component. -/
theorem isGreatest_iff (hes : ∃ e ∈ es, range.Contains e.ip) :
    IsGreatest {q | q ∈ (branchDocument range es).predictors.map fun p => exact p.2}
        (exact (branchDocument range es).bestAccuracy) ↔
      (MyBranch.run range es {}).correct ≤ (MyBranch.run range es {}).correctH ∧
        (MyBranch.run range es {}).correct2 ≤ (MyBranch.run range es {}).correctH := by
  have hpos := total_pos hes
  obtain ⟨h1, h2, hH⟩ := MyBranch.predictions_run range es
  simp [branchDocument, MyBranch.document, h1, h2, hH, IsGreatest, mem_upperBounds,
    exact_accuracy_le_iff hpos]

/-- With the hybrid ahead of its components, the greater one of it and TAGE is the
greatest of the four. -/
theorem isGreatest_bars {tage hybrid twoBit oneBit : ℚ} (h1 : oneBit ≤ hybrid)
    (h2 : twoBit ≤ hybrid) :
    IsGreatest {q | q ∈ [tage, hybrid, twoBit, oneBit]} (max hybrid tage) := by
  constructor
  · rcases le_total hybrid tage with h | h
    · simp [max_eq_right h]
    · simp [max_eq_left h]
  · intro q hq
    simp only [Set.mem_ofPred_eq, List.mem_cons, List.not_mem_nil, or_false] at hq
    rcases hq with rfl | rfl | rfl | rfl
    · exact le_max_right _ _
    · exact le_max_left _ _
    · exact le_max_of_le_left h2
    · exact le_max_of_le_left h1

/-- What is published is right as soon as the hybrid's accuracy is the greatest one. -/
theorem published_of_isGreatest
    (hbest : IsGreatest {q | q ∈ (branchDocument range es).predictors.map fun p => exact p.2}
      (exact (branchDocument range es).bestAccuracy)) : Published range es := by
  have hle : ∀ p ∈ (branchDocument range es).predictors,
      exact p.2 ≤ exact (branchDocument range es).bestAccuracy := fun p hp =>
    hbest.2 (List.mem_map.mpr ⟨p, hp, rfl⟩)
  have h1 : exact (accuracy (MyBranch.run range es {}).predictions
      (MyBranch.run range es {}).correct) ≤ exact (branchDocument range es).bestAccuracy :=
    hle ("1-bit", _) List.mem_cons_self
  have h2 : exact (accuracy (MyBranch.run range es {}).pred2
      (MyBranch.run range es {}).correct2) ≤ exact (branchDocument range es).bestAccuracy :=
    hle ("2-bit", _) (List.mem_cons_of_mem _ List.mem_cons_self)
  refine ⟨hbest, ?_, ?_, charted exact (MyBranch.run range es {}) (MyTage.run range es {}), ?_,
    rfl, isGreatest_bars h1 h2⟩
  · simp [branchDocument, MyBranch.document]
  · exact best_loaded exact _ _
  · rw [publishedPage, bars_loaded]
    rfl

/-- The published winner wins as long as no event takes a selector to the other side,
or is a first execution that is not taken. -/
theorem published_of_keeps (hes : ∃ e ∈ es, range.Contains e.ip)
    (hkeeps : ∀ past e, past ++ [e] <+: es → range.Contains e.ip →
      ¬ (MyBranch.slice (MyBranch.run range past {}) e.ip).Crosses e.isTaken) :
    Published range es :=
  published_of_isGreatest ((isGreatest_iff hes).mpr
    ((MyBranch.choicePays_iff range es).mp (MyBranch.choicePays_of_keeps hkeeps)))

end BranchPrediction
