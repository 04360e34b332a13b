import BranchPrediction.Cpp.Ostream
import BranchPrediction.Json.Reads
import BranchPrediction.Trace
import Mathlib.Algebra.Order.Field.Rat
import Mathlib.Tactic.Linarith
import Mathlib.Tactic.Positivity

/-!
# Result documents

What the tools hand to the dashboard: the values each `Fini` puts into its JSON
file, before they are printed.  `toJson` is the value the file is read as, given
the numbers that the printed accuracies denote.
-/

namespace BranchPrediction

open Cpp Json

/-- The contents of a result file. -/
structure Document where
  total : ℕ
  bestAccuracy : Double
  winner : String
  mispred : ℕ
  predictors : List (String × Double)
  branches : Option (List (ADDRINT × Int32))

/-- `(p > 0) ? (double)c / p * 100.0 : 0`. -/
def accuracy (p c : ℕ) : Double :=
  if p > 0 then (Double.div c p).map (· * 100) else some 0

/-- The number of an accuracy that is one. -/
def exact (x : Double) : ℚ :=
  x.getD 0

/-- The division is never by zero, and its result is a percentage. -/
theorem accuracy_eq {p c : ℕ} (h : c ≤ p) :
    ∃ q, accuracy p c = some q ∧ 0 ≤ q ∧ q ≤ 100 ∧ q = if p = 0 then 0 else (c : ℚ) / p * 100 := by
  rcases Nat.eq_zero_or_pos p with rfl | hp
  · exact ⟨0, rfl, le_rfl, by norm_num, rfl⟩
  · have hp' : (0 : ℚ) < p := Nat.cast_pos.mpr hp
    refine ⟨(c : ℚ) / p * 100, ?_, by positivity, ?_, (if_neg hp.ne').symm⟩
    · rw [accuracy, if_pos hp, Double.div, if_neg hp'.ne', Option.map_some]
    · have : (c : ℚ) / p ≤ 1 := (div_le_one hp').mpr (Nat.cast_le.mpr h)
      linarith

/-- More right predictions out of as many are a greater accuracy. -/
theorem exact_accuracy_le_iff {p c c' : ℕ} (hp : 0 < p) :
    exact (accuracy p c) ≤ exact (accuracy p c') ↔ c ≤ c' := by
  have hp' : (0 : ℚ) < p := Nat.cast_pos.mpr hp
  have heq : ∀ c : ℕ, exact (accuracy p c) = (c : ℚ) / p * 100 := by
    intro c
    rw [accuracy, if_pos hp, Double.div, if_neg hp'.ne']
    rfl
  rw [heq, heq, mul_le_mul_iff_left₀ (by norm_num), div_le_div_iff_of_pos_right hp', Nat.cast_le]

/-- `pc` as it is written. -/
def pcString (ip : ADDRINT) : String :=
  "0x" ++ .ofList (Nat.toDigits 16 ip.toNat)

/-- An entry of `branches`. -/
def branchJson (entry : ADDRINT × Int32) : Value :=
  .obj [("pc", .str (pcString entry.1)), ("miss", .num entry.2.toInt)]

namespace Document

/-- The `summary` of a result file. -/
def summaryJson (total : ℕ) (best : ℚ) (winner : String) (mispred : ℕ) : Value :=
  .obj [("total", .num total), ("best_accuracy", .num best), ("winner", .str winner),
    ("mispred", .num mispred)]

/-- The value of a result file, given what its accuracies are read as. -/
def toJson (num : Double → ℚ) (d : Document) : Value :=
  .obj ([("summary", summaryJson d.total (num d.bestAccuracy) d.winner d.mispred),
      ("predictors", .obj (d.predictors.map fun p => (p.1, .num (num p.2))))] ++
    (d.branches.map fun entries => ("branches", .arr (entries.map branchJson))).toList)

/-- How both tools write a summary. -/
def summaryText (total : ℕ) (best : List Char) (winner : String) (mispred : ℕ) : List Char :=
  "\x7b\n    \"total\": ".toList ++ (Nat.toDigits 10 total ++
    (",\n    \"best_accuracy\": ".toList ++ (best ++
      (",\n    \"winner\": \"".toList ++ (winner.toList ++
        ("\",\n    \"mispred\": ".toList ++ (Nat.toDigits 10 mispred ++ "\n  \x7d".toList)))))))

theorem reads_summary (total : ℕ) {token : List Char} {best : ℚ} (hbest : IsNumber token best)
    (winner : String) (hwinner : winner.toList.all isPlain) (mispred depth : ℕ) :
    Reads (value (depth + 2)) (summaryText total token winner mispred)
      (summaryJson total best winner mispred) := by
  have hnum : ∀ {token : List Char} {q : ℚ}, IsNumber token q →
      Reads (value (depth + 1)) token (.num q) := fun h => reads_number h depth
  have h : Reads (value (depth + 2)) _ _ := reads_obj
    (.cons "\n    " (reads_member "total" " " (hnum (isNumber_toDigits total))) ""
    (.cons "\n    " (reads_member "best_accuracy" " " (hnum hbest)) ""
    (.cons "\n    " (reads_member "winner" " " (reads_string hwinner depth)) ""
    (.last "\n    " (reads_member "mispred" " " (hnum (isNumber_toDigits mispred))) "\n  "))))
  unfold summaryText summaryJson
  simpa using h

end Document

end BranchPrediction
