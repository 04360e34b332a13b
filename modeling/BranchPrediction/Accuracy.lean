import BranchPrediction.Cpp.Format
import BranchPrediction.MyBranch.ResultFile
import BranchPrediction.MyTage.Fini
import BranchPrediction.Agreement

/-!
# Accuracies as they are computed, printed and read

`Document` keeps an accuracy as the exact percentage.  The tools compute it in
`double`s and print six digits of it, and the dashboard reads those back as a
`double` again: four roundings, none of which turns two accuracies round and
which together move an accuracy by less than 5.001 millionths of it.

So the result files do hold what the documents say.
-/

namespace BranchPrediction

open Cpp Json Rounding

/-- `(p > 0) ? (double)c / p * 100.0 : 0`, rounded where the code rounds. -/
def accuracy64 (p c : ℕ) : ℚ :=
  if p > 0 then binary64 (binary64 (binary64 c / binary64 p) * 100) else 0

/-- A percentage as it is computed: the ratio first, and then a hundred times it. -/
def computed (q : ℚ) : ℚ :=
  binary64 (binary64 (q / 100) * 100)

/-- `<<` of an accuracy. -/
def showAccuracy (x : Double) : List Char :=
  showGeneral (computed (exact x))

/-- The number that is printed. -/
def printed (x : Double) : ℚ :=
  significant 10 6 (computed (exact x))

/-- The number that the dashboard has of it. -/
def shown (q : ℚ) : ℚ :=
  binary64 (significant 10 6 (computed q))

theorem binary64_natCast {n : ℕ} (hn : n < 2 ^ 53) : binary64 n = n :=
  significant_of_digits (by decide) hn

/-- The counts of a run are exact as doubles, so it is the exact percentage that
is rounded. -/
theorem accuracy64_eq {p c : ℕ} (hc : c ≤ p) (hp : p < 2 ^ 53) :
    accuracy64 p c = computed (exact (accuracy p c)) := by
  rcases Nat.eq_zero_or_pos p with rfl | hpos
  · rw [accuracy64, if_neg (Nat.lt_irrefl 0), accuracy, if_neg (Nat.lt_irrefl 0)]
    simp [exact, computed, binary64]
  · have hp' : (p : ℚ) ≠ 0 := Nat.cast_ne_zero.mpr hpos.ne'
    have hexact : exact (accuracy p c) = (c : ℚ) / p * 100 := by
      rw [accuracy, if_pos hpos, Double.div, if_neg hp']
      rfl
    rw [accuracy64, if_pos hpos, binary64_natCast (hc.trans_lt hp), binary64_natCast hp, computed,
      hexact, mul_div_cancel_right₀ _ (by norm_num)]

/-! ## The roundings together -/

theorem rounds_computed : Rounds (3 / 2 ^ 53) computed :=
  (rounds_binary64.comp (rounds_binary64.scaled (c := 100) (by norm_num))
    (by norm_num)).mono_error (by norm_num)

theorem rounds_six : Rounds (5001 / 10 ^ 9) fun q => significant 10 6 (computed q) :=
  (rounds_printed.comp rounds_computed (by norm_num)).mono_error (by norm_num)

theorem rounds_shown : Rounds (5001 / 10 ^ 9) shown := by
  have h := rounds_printed.comp rounds_computed (by norm_num)
  exact (rounds_binary64.comp h (by norm_num)).mono_error (by norm_num)

/-! ## The result files -/

/-- The predictors of both tools, with their predictions and the right ones among them. -/
def scores (a : MyBranch.State) (b : MyTage.State) : List (String × ℕ × ℕ) :=
  MyBranch.scores a ++ [("TAGE", b.tagePred, b.tageCorrect)]

theorem predictors_eq (a : MyBranch.State) (b : MyTage.State) :
    (MyBranch.document a).predictors ++ (MyTage.document b).predictors =
      (scores a b).map fun score => (score.1, accuracy score.2.1 score.2.2) :=
  rfl

theorem right_le_predictions (range : Range) (es : List Event) :
    ∀ score ∈ scores (MyBranch.run range es {}) (MyTage.run range es {}),
      score.2.2 ≤ score.2.1 := by
  intro score hscore
  rcases List.mem_append.mp hscore with hscore | hscore
  · exact MyBranch.right_le_predictions range es score hscore
  · rw [List.mem_singleton.mp hscore]
    exact Nat.le.intro (MyTage.tagePred_run range es (Finset.Subset.refl _)).symm

/-- Every predictor is asked at every event in range. -/
theorem predictions_eq (range : Range) (es : List Event) :
    ∀ score ∈ scores (MyBranch.run range es {}) (MyTage.run range es {}),
      score.2.1 = (range.path es).length := by
  obtain ⟨htotal, hpred, -, -⟩ := MyTage.counters_run range es
  obtain ⟨h1, h2, hH⟩ := MyBranch.predictions_run range es
  have hagree := (agrees_run range es).total
  intro score hscore
  simp only [scores, MyBranch.scores, List.mem_append, List.mem_cons, List.not_mem_nil,
    or_false] at hscore
  rcases hscore with (rfl | rfl | rfl) | rfl
  · exact h1.trans (hagree.symm.trans htotal)
  · exact h2.trans (hagree.symm.trans htotal)
  · exact hH.trans (hagree.symm.trans htotal)
  · exact hpred

theorem exact_nonneg {p c : ℕ} (h : c ≤ p) : 0 ≤ exact (accuracy p c) := by
  obtain ⟨q, hq, h0, -, -⟩ := accuracy_eq h
  rw [hq]
  exact h0

theorem exact_le_hundred {p c : ℕ} (h : c ≤ p) : exact (accuracy p c) ≤ 100 := by
  obtain ⟨q, hq, -, h100, -⟩ := accuracy_eq h
  rw [hq]
  exact h100

theorem isNumber_showAccuracy {x : Double} (hx : 0 ≤ exact x) :
    IsNumber (showAccuracy x) (printed x) :=
  isNumber_showGeneral (rounds_computed.nonneg _ hx)

theorem listed_nonneg (range : Range) (es : List Event) :
    ∀ p ∈ (MyBranch.document (MyBranch.run range es {})).predictors ++
      (MyTage.document (MyTage.run range es {})).predictors, 0 ≤ exact p.2 := by
  intro p hp
  rw [predictors_eq] at hp
  obtain ⟨score, hscore, rfl⟩ := List.mem_map.mp hp
  exact exact_nonneg (right_le_predictions range es score hscore)

theorem parse_hybrid_file {range : Range} {es : List Event} (hes : es.length < 2 ^ 31) :
    parse (MyBranch.fini showAccuracy (MyBranch.run range es {})) =
      some ((MyBranch.document (MyBranch.run range es {})).toJson printed) := by
  apply MyBranch.parse_fini
  · intro p hp
    exact isNumber_showAccuracy (listed_nonneg range es p (List.mem_append_left _ hp))
  · exact fun it hit => (MyBranch.toInt_pos_of_mem hes hit).le

theorem parse_tage_file (range : Range) (es : List Event) :
    parse (MyTage.fini showAccuracy (MyTage.run range es {})) =
      some ((MyTage.document (MyTage.run range es {})).toJson printed) := by
  apply MyTage.parse_fini
  intro p hp
  exact isNumber_showAccuracy (listed_nonneg range es p (List.mem_append_right _ hp))

/-- **The result files hold the documents.**  Both files are well-formed, the
counts are read back as they are, and an accuracy is read back within 5.001
millionths of itself, two of them never in the wrong order. -/
theorem result_files_read_back (range : Range) (es : List Event) (hes : es.length < 2 ^ 31) :
    let a := MyBranch.run range es {}
    let b := MyTage.run range es {}
    let listed := (MyBranch.document a).predictors ++ (MyTage.document b).predictors
    (parse (MyBranch.fini showAccuracy a) = some ((MyBranch.document a).toJson printed) ∧
        parse (MyTage.fini showAccuracy b) = some ((MyTage.document b).toJson printed)) ∧
      (∀ score ∈ scores a b, showAccuracy (accuracy score.2.1 score.2.2) =
        showGeneral (accuracy64 score.2.1 score.2.2)) ∧
      (∀ p ∈ listed, |printed p.2 - exact p.2| ≤ 5001 / 10 ^ 9 * exact p.2) ∧
      (∀ p ∈ listed, ∀ p' ∈ listed, exact p.2 ≤ exact p'.2 → printed p.2 ≤ printed p'.2) := by
  intro a b listed
  have hnonneg : ∀ p ∈ listed, 0 ≤ exact p.2 := listed_nonneg range es
  refine ⟨⟨parse_hybrid_file hes, parse_tage_file range es⟩, ?_, ?_, ?_⟩
  · intro score hscore
    have hle : score.2.1 ≤ es.length := by
      rw [predictions_eq range es score hscore]
      exact range.length_path_le es
    rw [showAccuracy, accuracy64_eq (right_le_predictions range es score hscore) (by omega)]
  · exact fun p hp => rounds_six.error _ (hnonneg p hp)
  · exact fun p hp p' _ hle => rounds_six.mono _ _ (hnonneg p hp) hle

theorem result_files_read_back_two :
    let a := MyBranch.run ⟨1, 9⟩ [⟨4, 5, true⟩, ⟨4, 5, false⟩] {}
    parse (MyBranch.fini showAccuracy a) = some ((MyBranch.document a).toJson printed) :=
  (result_files_read_back ⟨1, 9⟩ [⟨4, 5, true⟩, ⟨4, 5, false⟩] (by decide)).1.1

end BranchPrediction
