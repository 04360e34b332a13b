import BranchPrediction.Log

/-!
# The report of `MyTage.cpp`

The console text of the second tool: the same counts and trace under another
title, and the statistics of its one predictor.
-/

namespace BranchPrediction.MyTage

open Cpp

/-- `Fini`, the text on the console. -/
def report (s : State) : List Char :=
  let out : Ostream := {}
  let out := (out.str "\n===============================================").endl
  let out := (out.str "           TAGE PREDICTOR STATISTICS           ").endl
  let out := (out.str "===============================================").endl
  let out := ((out.str "Total Branches: ").dec.uint s.total).endl
  let out := ((out.str "Taken:          ").uint s.taken).endl
  let out := ((out.str "Not Taken:      ").uint s.nottaken).endl
  let out := (out.str "\n--- BRANCH TRACE (Source -> Target : History) ---").endl
  let out := printTraces out s.history.toList
  let acc := accuracy64 s.tagePred s.tageCorrect
  let out := (out.str "\n--- ACCURACY REPORT ---").endl
  let out := (((out.str "TAGE Accuracy: ").fixed 2 acc).str "%").endl
  let out := ((out.str "Mispredictions: ").uint (s.tagePred - s.tageCorrect)).endl
  (out.str "===============================================\n").endl.text

def layout : Layout where
  title := "--- BRANCH TRACE (Source -> Target : History) ---"
  accuracy := "TAGE Accuracy: "

/-- The line around the name of the tool and at the end of the report. -/
def rule : Row where
  text := "==============================================="

/-- The rows before the counts. -/
def head : List Row :=
  [Row.blank, rule, { text := "           TAGE PREDICTOR STATISTICS           " }, rule]

/-- The rows after the trace. -/
def tail (s : State) : List Row :=
  { text := "--- ACCURACY REPORT ---" } :: (statRows layout s.tagePred s.tageCorrect ++
    [rule, Row.blank])

set_option maxRecDepth 2000 in
theorem report_eq {s : State} (h : ∀ it ∈ s.history.toList, Lettered it.2) :
    report s = unlines ((reportRows layout head s.total s.taken s.nottaken
      (traceLines s.history) (tail s)).map Row.line) := by
  have hprint := fun out hout => printTraces_eq out hout h
  have hblank : Row.blank.line = [] := rfl
  simp only [reportRows, List.map_append, List.map_cons, unlines_append, unlines_cons,
    map_line_traceLines, head, tail, hblank]
  unfold report
  dsimp only
  rw [hprint _ rfl]
  simp [countRows, statRows, rule, layout, Row.line, Base.radix]

/-- What the report says. -/
def log (s : State) : Log where
  total := s.total
  taken := s.taken
  nottaken := s.nottaken
  traces := traceLines s.history
  accuracies := [percent (accuracy64 s.tagePred s.tageCorrect)]
  mispredictions := [s.tagePred - s.tageCorrect]

theorem fits (s : State) :
    layout.Fits (head.map Row.shape) ((tail s ++ [Row.blank]).map Row.shape) where
  clear := by
    change ∀ label ∈ layout.labels, ∀ s ∈ layout.shapes (head.map Row.shape)
      [("--- ACCURACY REPORT ---", false), ("TAGE Accuracy: ", true), ("Mispredictions: ", true),
        rule.shape, ("", false), ("", false)], Row.Clear label s
    decide
  title := by
    decide

theorem readLog_report {s : State} (h : ∀ it ∈ s.history.toList, Lettered it.2) :
    readLog layout (report s) = some (log s) := by
  have hlines : ∀ r ∈ head ++ tail s, '\n' ∉ r.line := by
    simp only [head, tail, List.forall_mem_append, List.forall_mem_cons]
    refine ⟨⟨by decide, by decide, by decide, by decide, nofun⟩, by decide, ?_, by decide,
      by decide, nofun⟩
    exact not_newline_mem_statRows (by decide) _ _
  have hpercent := fun p c => readPercent_showFixed (accuracy64_nonneg p c)
  rw [report_eq h, readLog_reportRows (fits s) hlines (by decide) (by decide)]
  simp [filled, reportRows, head, tail, rule, statRows, layout, countRows, readCount,
    natural_toDigits, hpercent, log]

end BranchPrediction.MyTage
