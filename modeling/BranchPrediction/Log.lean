import BranchPrediction.Accuracy
import BranchPrediction.Cpp.Console

/-!
# Console logs

Before it writes its result file, each `Fini` prints a report: the counts, a
line for each branch with its address, its last target and its outcome string,
and the statistics of the predictors.  `readLog` reads such a report back.

The loop over `history` is the same in both tools, and stands here; a tool's own
report is a layout and the rows around that loop.
-/

namespace BranchPrediction

open Cpp Json

/-- A line of the trace: a branch, its last target, its outcomes and their number. -/
structure TraceLine where
  pc : ADDRINT
  target : ADDRINT
  outcomes : List Bool
  calls : ℕ
deriving DecidableEq

/-- What can be read off a report. -/
structure Log where
  total : ℕ
  taken : ℕ
  nottaken : ℕ
  traces : List TraceLine
  accuracies : List ℚ
  mispredictions : List ℕ

/-- The texts in which the reports of the tools differ. -/
structure Layout where
  title : String
  accuracy : String

/-! ## Writing -/

/-- `traces.back()`, for a vector that is not empty. -/
def back (traces : List BranchTrace) : BranchTrace :=
  traces.getLastD ⟨'N', 0⟩

/-- The loop over `history`, from one of its iterators on. -/
def printTraces (out : Ostream) : List (ADDRINT × List BranchTrace) → Ostream
  | [] => out
  | (pc, traces) :: rest =>
      let out := (((out.str "0x").hex.uint pc.toNat).str " -> 0x").uint
        (back traces).target.toNat
      let out := traces.foldl (fun out entry => out.char entry.outcome) (out.str " : ")
      let out := (((out.dec.str " (").uint traces.length).str " calls)").endl
      printTraces out rest

/-- An outcome as it is recorded. -/
def letter (outcome : Bool) : Char :=
  if outcome then 'T' else 'N'

namespace TraceLine

/-- The words of a line. -/
def words (t : TraceLine) : List (List Char) :=
  ['0' :: 'x' :: Nat.toDigits 16 t.pc.toNat, ['-', '>'],
    '0' :: 'x' :: Nat.toDigits 16 t.target.toNat, [':'], t.outcomes.map letter,
    '(' :: Nat.toDigits 10 t.calls, ['c', 'a', 'l', 'l', 's', ')']]

/-- A line, without its end. -/
def text (t : TraceLine) : List Char :=
  [' '].intercalate t.words

/-- The line of an entry of `history`. -/
def ofEntry (it : ADDRINT × List BranchTrace) : TraceLine :=
  ⟨it.1, (back it.2).target, it.2.map fun entry => entry.outcome = 'T', it.2.length⟩

end TraceLine

/-- The outcomes are recorded as one of two letters. -/
def Lettered (traces : List BranchTrace) : Prop :=
  ∀ entry ∈ traces, entry.outcome = 'T' ∨ entry.outcome = 'N'

theorem map_letter {traces : List BranchTrace} (h : Lettered traces) :
    (traces.map fun entry => decide (entry.outcome = 'T')).map letter =
      traces.map BranchTrace.outcome := by
  rw [List.map_map]
  apply List.map_congr_left
  intro entry hentry
  rcases h entry hentry with heq | heq <;> simp [letter, heq]

/-- The loop leaves the stream writing decimal numbers, which it found. -/
theorem printTraces_eq (out : Ostream) (hout : out.base = .dec)
    {entries : List (ADDRINT × List BranchTrace)} (h : ∀ it ∈ entries, Lettered it.2) :
    printTraces out entries =
      { out with text :=
          out.text ++ unlines (entries.map fun it => (TraceLine.ofEntry it).text) } := by
  induction entries generalizing out with
  | nil => simp [printTraces]
  | cons it rest ih =>
      obtain ⟨pc, traces⟩ := it
      have hletters := map_letter (h _ (List.mem_cons_self ..))
      have hloop : ∀ out : Ostream,
          traces.foldl (fun out entry => out.char entry.outcome) out =
            { out with text := out.text ++ traces.map BranchTrace.outcome } := by
        intro out
        rw [← Ostream.foldl_char, List.foldl_map]
      rw [printTraces, ih _ rfl fun it' h' => h it' (List.mem_cons_of_mem _ h'), hloop,
        List.map_cons, unlines_cons, TraceLine.text, TraceLine.words, TraceLine.ofEntry, hletters]
      simp [Base.radix, List.intercalate, hout]

/-! ## Reading -/

/-- An address in hexadecimal. -/
def readAddress : List Char → Option ADDRINT
  | '0' :: 'x' :: digits =>
      if digits ≠ [] ∧ digits.all isHexDigit ∧ readHex digits < 2 ^ 64 then
        some (UInt64.ofNat (readHex digits))
      else none
  | _ => none

def readOutcome : Char → Option Bool
  | 'T' => some true
  | 'N' => some false
  | _ => none

/-- A number after its opening parenthesis. -/
def readCalls : List Char → Option ℕ
  | '(' :: digits => natural digits
  | _ => none

/-- A line of the trace. -/
def readLine (line : List Char) : Option TraceLine :=
  match line.splitOn ' ' with
  | [pc, arrow, target, colon, outcomes, calls, word] =>
      if arrow = ['-', '>'] ∧ colon = [':'] ∧ word = ['c', 'a', 'l', 'l', 's', ')'] then do
        some ⟨← readAddress pc, ← readAddress target, ← outcomes.mapM readOutcome,
          ← readCalls calls⟩
      else none
  | _ => none

/-- A number before a percent sign. -/
def readPercent (field : List Char) : Option ℚ :=
  if field.getLast? = some '%' then numeral field.dropLast else none

/-- A count that is there once. -/
def readCount : List (List Char) → Option ℕ
  | [field] => natural field
  | _ => none

/-- A report. -/
def readLog (layout : Layout) (report : List Char) : Option Log := do
  let ls := lines report
  some
    { total := ← readCount (fields "Total Branches: " ls)
      taken := ← readCount (fields "Taken:          " ls)
      nottaken := ← readCount (fields "Not Taken:      " ls)
      traces := ← (paragraph (fun l => l = layout.title.toList) ls).mapM readLine
      accuracies := ← (fields layout.accuracy ls).mapM readPercent
      mispredictions := ← (fields "Mispredictions: " ls).mapM natural }

/-! ### Lines are read back -/

theorem readAddress_toDigits (ip : ADDRINT) :
    readAddress ('0' :: 'x' :: Nat.toDigits 16 ip.toNat) = some ip := by
  have hvalid : Nat.toDigits 16 ip.toNat ≠ [] ∧ (Nat.toDigits 16 ip.toNat).all isHexDigit ∧
      readHex (Nat.toDigits 16 ip.toNat) < 2 ^ 64 := by
    refine ⟨Nat.toDigits_ne_nil, isHexDigit_toDigits _, ?_⟩
    rw [readHex_toDigits]
    exact ip.toNat_lt
  rw [readAddress, if_pos hvalid, readHex_toDigits, UInt64.ofNat_toNat]

theorem readOutcome_letter (outcome : Bool) : readOutcome (letter outcome) = some outcome := by
  cases outcome <;> rfl

namespace TraceLine

variable (t : TraceLine)

/-- A character that is no digit and none of the others stands in no word. -/
theorem not_mem_words {c : Char} (hdigit : ∀ d < 16, Nat.digitChar d ≠ c)
    (hc : c ∉ ['0', 'x', '-', '>', ':', 'T', 'N', '(', 'c', 'a', 'l', 's', ')']) :
    ∀ word ∈ t.words, c ∉ word := by
  have hhex := not_mem_toDigits (b := 16) (by decide) (by decide) hdigit
  have hdecimal := not_mem_toDigits (b := 10) (by decide) (by decide) hdigit
  simp only [List.mem_cons, List.not_mem_nil, or_false, not_or] at hc
  have hletters : c ∉ t.outcomes.map letter := by
    intro hmem
    obtain ⟨outcome, -, rfl⟩ := List.mem_map.mp hmem
    cases outcome with
    | true => exact hc.2.2.2.2.2.1 rfl
    | false => exact hc.2.2.2.2.2.2.1 rfl
  simp only [words, List.forall_mem_cons]
  simp [hc, hhex, hdecimal, hletters]

theorem readLine_text : readLine t.text = some t := by
  have hwords : t.text.splitOn ' ' = t.words :=
    List.splitOn_intercalate ' ' (t.not_mem_words (by decide) (by decide)) (List.cons_ne_nil _ _)
  have hcalls : readCalls ('(' :: Nat.toDigits 10 t.calls) = some t.calls :=
    natural_toDigits t.calls
  rw [readLine, hwords, words]
  simp only [and_self, if_true, readAddress_toDigits,
    mapM_map_of_inverse readOutcome_letter, hcalls]
  rfl

theorem not_newline_mem_text : '\n' ∉ t.text := by
  intro hmem
  have hwords := t.not_mem_words (c := '\n') (by decide) (by decide)
  rcases mem_of_mem_intercalate hmem with heq | ⟨word, hword, hc⟩
  · exact absurd heq (by decide)
  · exact hwords word hword hc

end TraceLine

/-! ### Reports are read back -/

/-- The row of a line of the trace. -/
def TraceLine.row (t : TraceLine) : Row where
  text := "0x"
  fill := some (t.text.drop 2)

theorem TraceLine.line_row (t : TraceLine) : t.row.line = t.text := by
  simp [row, Row.line, text, words]

/-- The trace of a tool. -/
def traceLines (history : Map ADDRINT (List BranchTrace)) : List TraceLine :=
  history.toList.map TraceLine.ofEntry

theorem map_line_traceLines (history : Map ADDRINT (List BranchTrace)) :
    ((traceLines history).map TraceLine.row).map Row.line =
      history.toList.map fun it => (TraceLine.ofEntry it).text := by
  simp only [traceLines, List.map_map, Function.comp_def, TraceLine.line_row]

/-- The rows of the counts, and the empty line after them. -/
def countRows (total taken nottaken : ℕ) : List Row :=
  [{ text := "Total Branches: ", fill := some (Nat.toDigits 10 total) },
    { text := "Taken:          ", fill := some (Nat.toDigits 10 taken) },
    { text := "Not Taken:      ", fill := some (Nat.toDigits 10 nottaken) },
    Row.blank]

/-- The rows of a predictor that made some predictions, of which some were right. -/
def statRows (layout : Layout) (p c : ℕ) : List Row :=
  [{ text := layout.accuracy, fill := some (showFixed 2 (accuracy64 p c) ++ ['%']) },
    { text := "Mispredictions: ", fill := some (Nat.toDigits 10 (p - c)) }]

theorem not_newline_mem_statRows {layout : Layout} (haccuracy : '\n' ∉ layout.accuracy.toList)
    (p c : ℕ) : ∀ r ∈ statRows layout p c, '\n' ∉ r.line := by
  have hdigits := not_mem_toDigits (b := 10) (c := '\n') (by decide) (by decide) (by decide)
  have hfixed := not_mem_showFixed (c := '\n') rfl 2 (accuracy64 p c)
  simp only [statRows, List.forall_mem_cons]
  simp [Row.line, haccuracy, hdigits, hfixed]

/-- The rows of a report. -/
def reportRows (layout : Layout) (before : List Row) (total taken nottaken : ℕ)
    (traces : List TraceLine) (after : List Row) : List Row :=
  (before ++ countRows total taken nottaken) ++
    { text := layout.title } :: (traces.map TraceLine.row ++ Row.blank :: after)

theorem accuracy64_nonneg (p c : ℕ) : 0 ≤ accuracy64 p c := by
  have hround := fun x hx => rounds_binary64.nonneg x hx
  unfold accuracy64
  split
  · have hratio := div_nonneg (hround c (Nat.cast_nonneg c)) (hround p (Nat.cast_nonneg p))
    exact hround _ (mul_nonneg (hround _ hratio) (by norm_num))
  · exact le_rfl

/-- The number that a percentage is printed as. -/
def percent (x : ℚ) : ℚ :=
  (Rounding.roundEven (x * 10 ^ 2) : ℚ) / 10 ^ 2

theorem readPercent_showFixed {x : ℚ} (hx : 0 ≤ x) :
    readPercent (showFixed 2 x ++ ['%']) = some (percent x) := by
  rw [readPercent, if_pos List.getLast?_concat, List.dropLast_concat]
  exact (isNumber_showFixed 2 hx).2

namespace Layout

variable (layout : Layout)

/-- What the lines of a report are found by. -/
def labels : List String :=
  ["Total Branches: ", "Taken:          ", "Not Taken:      ", "Mispredictions: ", layout.accuracy]

/-- The rows of a report, as far as they are fixed. -/
def shapes (before after : List (String × Bool)) : List (String × Bool) :=
  before ++ (countRows 0 0 0).map Row.shape ++ [(layout.title, false), ("0x", true), ("", false)] ++
    after

/-- The rows around the trace are not confused with each other. -/
structure Fits (before after : List (String × Bool)) : Prop where
  clear : ∀ label ∈ layout.labels, ∀ s ∈ layout.shapes before after, Row.Clear label s
  title : ∀ s ∈ before ++ (countRows 0 0 0).map Row.shape,
    Row.Clear layout.title s ∧ s.1 ≠ layout.title

end Layout

section

variable {layout : Layout} {before after : List Row}

theorem shape_mem_shapes {total taken nottaken : ℕ} {traces : List TraceLine} {s : String × Bool}
    (hs : s ∈ (reportRows layout before total taken nottaken traces after).map Row.shape) :
    s ∈ layout.shapes (before.map Row.shape) (after.map Row.shape) := by
  have hrows : (reportRows layout before total taken nottaken traces after).map Row.shape =
      (before.map Row.shape ++ (countRows 0 0 0).map Row.shape) ++ (layout.title, false) ::
        (traces.map (fun _ => ("0x", true)) ++ ("", false) :: after.map Row.shape) := by
    simp only [reportRows, List.map_append, List.map_cons, List.map_map]
    rfl
  rw [hrows] at hs
  simp only [List.mem_append, List.mem_cons] at hs
  simp only [Layout.shapes, List.mem_append, List.mem_cons]
  rcases hs with (hs | hs) | rfl | hs | rfl | hs
  · exact Or.inl (Or.inl (Or.inl hs))
  · exact Or.inl (Or.inl (Or.inr hs))
  · exact Or.inl (Or.inr (Or.inl rfl))
  · obtain ⟨t, -, rfl⟩ := List.mem_map.mp hs
    exact Or.inl (Or.inr (Or.inr (Or.inl rfl)))
  · exact Or.inl (Or.inr (Or.inr (Or.inr (Or.inl rfl))))
  · exact Or.inr hs

theorem not_newline_mem_reportRows {total taken nottaken : ℕ} {traces : List TraceLine}
    (hrows : ∀ r ∈ before ++ after, '\n' ∉ r.line) (htitle : '\n' ∉ layout.title.toList) :
    ∀ l ∈ (reportRows layout before total taken nottaken traces after).map Row.line, '\n' ∉ l := by
  have hdigits := not_mem_toDigits (b := 10) (c := '\n') (by decide) (by decide) (by decide)
  intro l hl
  obtain ⟨r, hr, rfl⟩ := List.mem_map.mp hl
  simp only [reportRows, List.mem_append, List.mem_cons] at hr
  rcases hr with (hr | hr) | rfl | hr | rfl | hr
  · exact hrows r (List.mem_append_left _ hr)
  · simp only [countRows, List.mem_cons, List.not_mem_nil, or_false] at hr
    rcases hr with rfl | rfl | rfl | rfl <;> simp [Row.line, hdigits]
  · simpa [Row.line] using htitle
  · obtain ⟨t, -, rfl⟩ := List.mem_map.mp hr
    rw [t.line_row]
    exact t.not_newline_mem_text
  · exact List.not_mem_nil
  · exact hrows r (List.mem_append_right _ hr)

/-- The rows of the trace carry none of the labels. -/
theorem filled_reportRows {label : String} (hlabel : label ≠ "0x") (total taken nottaken : ℕ)
    (traces : List TraceLine) :
    filled label (reportRows layout before total taken nottaken traces after) =
      filled label (reportRows layout before total taken nottaken [] after) := by
  have htraces : (traces.map TraceLine.row).filter (fun r => r.text = label) = [] := by
    apply List.filter_eq_nil_iff.mpr
    intro r hr
    obtain ⟨t, -, rfl⟩ := List.mem_map.mp hr
    rw [decide_eq_true_eq]
    exact hlabel.symm
  simp only [filled, reportRows, List.filter_append, List.filter_cons, htraces, List.map_nil,
    List.filter_nil]

/-- A report is read back: the trace as it was written, and the rest from what is
filled into the other rows. -/
theorem readLog_reportRows {total taken nottaken : ℕ} {traces : List TraceLine}
    (hfits : layout.Fits (before.map Row.shape) ((after ++ [Row.blank]).map Row.shape))
    (hrows : ∀ r ∈ before ++ after, '\n' ∉ r.line) (htitle : '\n' ∉ layout.title.toList)
    (haccuracy : layout.accuracy ≠ "0x") :
    let rows := reportRows layout before total taken nottaken [] (after ++ [Row.blank])
    readLog layout (unlines
      ((reportRows layout before total taken nottaken traces after).map Row.line)) =
      (do
        let total ← readCount (filled "Total Branches: " rows)
        let taken ← readCount (filled "Taken:          " rows)
        let nottaken ← readCount (filled "Not Taken:      " rows)
        let accuracies ← (filled layout.accuracy rows).mapM readPercent
        let mispredictions ← (filled "Mispredictions: " rows).mapM natural
        some ⟨total, taken, nottaken, traces, accuracies, mispredictions⟩) := by
  intro rows
  let all := reportRows layout before total taken nottaken traces (after ++ [Row.blank])
  have hlines : lines (unlines
      ((reportRows layout before total taken nottaken traces after).map Row.line)) =
      all.map Row.line := by
    rw [lines_unlines (not_newline_mem_reportRows hrows htitle)]
    simp [all, reportRows, Row.line]
  have hfields : ∀ label ∈ layout.labels, label ≠ "0x" →
      fields label (all.map Row.line) = filled label rows := by
    intro label hlabel hne
    rw [fields_rows fun s hs => hfits.clear label hlabel s (shape_mem_shapes hs)]
    exact filled_reportRows hne _ _ _ _
  have htraces : (paragraph (fun l => l = layout.title.toList) (all.map Row.line)).mapM readLine =
      some traces := by
    have hbefore : ∀ s ∈ (before ++ countRows total taken nottaken).map Row.shape,
        Row.Clear layout.title s ∧ s.1 ≠ layout.title := by
      intro s hs
      rw [List.map_append] at hs
      exact hfits.title s hs
    have hbody : ∀ r ∈ traces.map TraceLine.row, r.line ≠ [] := by
      intro r hr
      obtain ⟨t, -, rfl⟩ := List.mem_map.mp hr
      simp [t.line_row, TraceLine.text, TraceLine.words]
    have hparagraph : paragraph (fun l => l = layout.title.toList) (all.map Row.line) =
        (traces.map TraceLine.row).map Row.line :=
      paragraph_rows hbefore hbody (after ++ [Row.blank])
    rw [hparagraph, List.map_map]
    apply mapM_map_of_inverse
    intro t
    rw [Function.comp_apply, t.line_row, t.readLine_text]
  rw [readLog, hlines]
  simp only [Layout.labels, List.forall_mem_cons] at hfields
  obtain ⟨htotal, htaken, hnottaken, hmispredictions, haccuracies, -⟩ := hfields
  rw [htotal (by decide), htaken (by decide), hnottaken (by decide),
    hmispredictions (by decide), haccuracies haccuracy, htraces]
  rfl

end

end BranchPrediction
