import BranchPrediction.Log

/-!
# The report of `MyBranch.cpp`

What `Fini` prints to the console before it writes the result file: the counts,
the trace, and the statistics of the three predictors.  `readLog_report` reads
all of it back.
-/

namespace BranchPrediction.MyBranch

open Cpp

/-- `printStat`. -/
def printStat (out : Ostream) (name : String) (p c : ℕ) : Ostream :=
  let acc := accuracy64 p c
  let out := (((out.str "\n--- ").str name).str " ---").endl
  let out := (((out.str "Accuracy: ").fixed 2 acc).str "%").endl
  ((out.str "Mispredictions: ").uint (p - c)).endl

/-- `Fini`, the text on the console. -/
def report (s : State) : List Char :=
  let out : Ostream := {}
  let out := (out.str "           BRANCH PREDICTION STATISTICS          ").endl
  let out := ((out.str "Total Branches: ").dec.uint s.total).endl
  let out := ((out.str "Taken:          ").uint s.taken).endl
  let out := ((out.str "Not Taken:      ").uint s.nottaken).endl
  let out := (out.str "\n--- DETAILED BRANCH TRACE (Source -> Target : History) ---").endl
  let out := printTraces out s.history.toList
  let out := printStat out "1-BIT PREDICTOR" s.predictions s.correct
  let out := printStat out "2-BIT PREDICTOR" s.pred2 s.correct2
  let out := printStat out "HYBRID PREDICTOR" s.predH s.correctH
  out.text

def layout : Layout where
  title := "--- DETAILED BRANCH TRACE (Source -> Target : History) ---"
  accuracy := "Accuracy: "

/-- The rows of a predictor. -/
def predictorRows (name : String) (p c : ℕ) : List Row :=
  { text := "--- ", fill := some (name.toList ++ " ---".toList) } :: statRows layout p c

theorem printStat_eq (out : Ostream) (hout : out.base = .dec) (name : String) (p c : ℕ) :
    printStat out name p c =
      { out with
        text := out.text ++ unlines ((Row.blank :: predictorRows name p c).map Row.line) } := by
  obtain ⟨text, base⟩ := out
  subst hout
  simp [printStat, predictorRows, statRows, layout, Row.line, Ostream.str, Ostream.endl,
    Ostream.fixed, Ostream.uint, Base.radix]

/-- The rows before the counts. -/
def head : List Row :=
  [{ text := "           BRANCH PREDICTION STATISTICS          " }]

/-- The rows after the trace. -/
def tail (s : State) : List Row :=
  predictorRows "1-BIT PREDICTOR" s.predictions s.correct ++
    Row.blank :: (predictorRows "2-BIT PREDICTOR" s.pred2 s.correct2 ++
      Row.blank :: predictorRows "HYBRID PREDICTOR" s.predH s.correctH)

set_option maxRecDepth 2000 in
theorem report_eq {s : State} (h : ∀ it ∈ s.history.toList, Lettered it.2) :
    report s = unlines ((reportRows layout head s.total s.taken s.nottaken
      (traceLines s.history) (tail s)).map Row.line) := by
  have hprint := fun out hout => printTraces_eq out hout h
  have hblank : Row.blank.line = [] := rfl
  simp only [reportRows, List.map_append, List.map_cons, unlines_append, unlines_cons,
    map_line_traceLines, head, tail, hblank]
  unfold report
  dsimp only
  rw [hprint _ rfl]
  rw [printStat_eq _ rfl, printStat_eq _ rfl, printStat_eq _ rfl]
  simp [countRows, layout, Row.line, Base.radix]

/-- What the report says. -/
def log (s : State) : Log where
  total := s.total
  taken := s.taken
  nottaken := s.nottaken
  traces := traceLines s.history
  accuracies := [percent (accuracy64 s.predictions s.correct),
    percent (accuracy64 s.pred2 s.correct2), percent (accuracy64 s.predH s.correctH)]
  mispredictions := [s.predictions - s.correct, s.pred2 - s.correct2, s.predH - s.correctH]

theorem fits (s : State) :
    layout.Fits (head.map Row.shape) ((tail s ++ [Row.blank]).map Row.shape) where
  clear := by
    change ∀ label ∈ layout.labels, ∀ s ∈ layout.shapes (head.map Row.shape)
      [("--- ", true), ("Accuracy: ", true), ("Mispredictions: ", true), ("", false),
        ("--- ", true), ("Accuracy: ", true), ("Mispredictions: ", true), ("", false),
        ("--- ", true), ("Accuracy: ", true), ("Mispredictions: ", true), ("", false)],
      Row.Clear label s
    decide
  title := by
    decide

theorem not_newline_mem_predictorRows {name : String} (hname : '\n' ∉ name.toList) (p c : ℕ) :
    ∀ r ∈ predictorRows name p c, '\n' ∉ r.line := by
  rw [predictorRows, List.forall_mem_cons]
  refine ⟨?_, not_newline_mem_statRows (by decide) p c⟩
  simp [Row.line, hname]

theorem readLog_report {s : State} (h : ∀ it ∈ s.history.toList, Lettered it.2) :
    readLog layout (report s) = some (log s) := by
  have hlines : ∀ r ∈ head ++ tail s, '\n' ∉ r.line := by
    simp only [head, tail, List.forall_mem_append, List.forall_mem_cons]
    refine ⟨⟨by decide, nofun⟩, ?_, by decide, ?_, by decide, ?_⟩
    · exact not_newline_mem_predictorRows (by decide) _ _
    · exact not_newline_mem_predictorRows (by decide) _ _
    · exact not_newline_mem_predictorRows (by decide) _ _
  have hpercent := fun p c => readPercent_showFixed (accuracy64_nonneg p c)
  rw [report_eq h, readLog_reportRows (fits s) hlines (by decide) (by decide)]
  simp [filled, reportRows, head, tail, predictorRows, statRows, layout, countRows, readCount,
    natural_toDigits, hpercent, log]

end BranchPrediction.MyBranch
