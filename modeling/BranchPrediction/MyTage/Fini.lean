import BranchPrediction.Document
import BranchPrediction.MyTage.Model

/-!
# `Fini` of `MyTage.cpp`

The JSON file of the second tool, in the same layout without the branches.
-/

namespace BranchPrediction.MyTage

open Cpp Json

/-- `Fini`, the text of the result file. -/
def fini (showDouble : Double → List Char) (s : State) : List Char :=
  let acc := accuracy s.tagePred s.tageCorrect
  let out : Ostream := {}
  let out := out.str "\x7b\n  \"summary\": \x7b\n"
  let out := ((out.str "    \"total\": ").uint s.total).str ",\n"
  let out := ((out.str "    \"best_accuracy\": ").double showDouble acc).str ",\n"
  let out := out.str "    \"winner\": \"TAGE\",\n"
  let out := ((out.str "    \"mispred\": ").uint (s.tagePred - s.tageCorrect)).str "\n  \x7d,\n"
  let out := (out.str "  \"predictors\": \x7b\n    \"TAGE\": ").double showDouble acc
  (out.str "\n  \x7d\n\x7d").text

/-- The values `Fini` writes. -/
def document (s : State) : Document where
  total := s.total
  bestAccuracy := accuracy s.tagePred s.tageCorrect
  winner := "TAGE"
  mispred := s.tagePred - s.tageCorrect
  predictors := [("TAGE", accuracy s.tagePred s.tageCorrect)]
  branches := none

/-- The text of the file, in the order it is written. -/
theorem fini_eq (showDouble : Double → List Char) (s : State) :
    fini showDouble s =
      "\x7b\n  \"summary\": ".toList ++
      (Document.summaryText s.total (showDouble (accuracy s.tagePred s.tageCorrect)) "TAGE"
        (s.tagePred - s.tageCorrect) ++
      (",\n  \"predictors\": \x7b\n    \"TAGE\": ".toList ++
        (showDouble (accuracy s.tagePred s.tageCorrect) ++ "\n  \x7d\n\x7d".toList))) := by
  unfold fini Document.summaryText
  simp [Base.radix]

/-- **The file is the document.** -/
theorem parse_fini {showDouble : Double → List Char} {num : Double → ℚ} {s : State}
    (hshow : ∀ p ∈ (document s).predictors, IsNumber (showDouble p.2) (num p.2)) :
    parse (fini showDouble s) = some ((document s).toJson num) := by
  have hacc := hshow ("TAGE", accuracy s.tagePred s.tageCorrect) (by simp [document])
  rw [fini_eq]
  apply parse_of_reads (?_ : 3 ≤ _)
  · intro n
    have hsummary := Document.reads_summary s.total hacc "TAGE" (by decide)
      (s.tagePred - s.tageCorrect) n
    have hpredictors : Reads (value (n + 2)) _ _ := reads_obj
      (.last "\n    " (reads_member "TAGE" " " (reads_number hacc n)) "\n  ")
    have h : Reads (value (n + 3)) _ _ := reads_obj
      (.cons "\n  " (reads_member "summary" " " hsummary) ""
      (.last "\n  " (reads_member "predictors" " " hpredictors) "\n"))
    simpa [document, Document.toJson] using h
  · rw [List.length_append]
    exact Nat.le_add_right_of_le (by decide)

end BranchPrediction.MyTage
