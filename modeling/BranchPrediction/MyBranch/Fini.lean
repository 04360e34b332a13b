import BranchPrediction.Document
import BranchPrediction.MyBranch.Model

/-!
# `Fini` of `MyBranch.cpp`

The JSON file the tool writes at the end, as a stream of `<<`, and the values it
puts there.  `parse_fini` connects the two: the file is one JSON value, and it is
the document.
-/

namespace BranchPrediction.MyBranch

open Cpp Json

/-- The loop over `mispredBranch`, from one of its iterators on. -/
def emitBranches (out : Ostream) : List (ADDRINT × Int32) → Ostream
  | [] => out
  | it :: rest =>
      let out := (out.str "    \x7b\"pc\": \"0x").hex.uint it.1.toNat
      let out := (((out.str "\", \"miss\": ").dec.int it.2).str "\x7d")
      -- `std::next(it) != mispredBranch.end()`
      let out := if rest ≠ [] then out.str "," else out
      emitBranches (out.str "\n") rest

/-- `Fini`, the text of the result file. -/
def fini (showDouble : Double → List Char) (s : State) : List Char :=
  let acc1 := accuracy s.predictions s.correct
  let acc2 := accuracy s.pred2 s.correct2
  let accH := accuracy s.predH s.correctH
  let out : Ostream := {}
  let out := out.str "\x7b\n  \"summary\": \x7b\n"
  let out := ((out.str "    \"total\": ").uint s.total).str ",\n"
  let out := ((out.str "    \"best_accuracy\": ").double showDouble accH).str ",\n"
  let out := out.str "    \"winner\": \"Hybrid\",\n"
  let out := ((out.str "    \"mispred\": ").uint (s.predH - s.correctH)).str "\n  \x7d,\n"
  let out := out.str "  \"predictors\": \x7b\n"
  let out := ((out.str "    \"1-bit\": ").double showDouble acc1).str ",\n"
  let out := ((out.str "    \"2-bit\": ").double showDouble acc2).str ",\n"
  let out := ((out.str "    \"Hybrid\": ").double showDouble accH).str "\n  \x7d,\n"
  let out := out.str "  \"branches\": [\n"
  let out := emitBranches out s.mispredBranch.toList
  (out.str "  ]\n\x7d").text

/-- The values `Fini` writes. -/
def document (s : State) : Document where
  total := s.total
  bestAccuracy := accuracy s.predH s.correctH
  winner := "Hybrid"
  mispred := s.predH - s.correctH
  predictors := [("1-bit", accuracy s.predictions s.correct),
    ("2-bit", accuracy s.pred2 s.correct2), ("Hybrid", accuracy s.predH s.correctH)]
  branches := some s.mispredBranch.toList

/-! ## The branches -/

/-- The object of one branch. -/
def branchText (it : ADDRINT × Int32) : List Char :=
  "\x7b\"pc\": \"0x".toList ++ (Nat.toDigits 16 it.1.toNat ++ ("\", \"miss\": ".toList ++
    (Nat.toDigits 10 it.2.toInt.natAbs ++ "\x7d".toList)))

/-- The lines of the branches. -/
def branchLines : List (ADDRINT × Int32) → List Char
  | [] => []
  | it :: rest =>
      "    ".toList ++ (branchText it ++ ((if rest ≠ [] then ",".toList else []) ++
        ("\n".toList ++ branchLines rest)))

/-- The base each number is written in is the one selected just before it, so
the text does not depend on the base the loop is entered with. -/
theorem text_emitBranches (out : Ostream) (entries : List (ADDRINT × Int32))
    (hentries : ∀ it ∈ entries, 0 ≤ it.2.toInt) :
    (emitBranches out entries).text = out.text ++ branchLines entries := by
  induction entries generalizing out with
  | nil => simp [emitBranches, branchLines]
  | cons it rest ih =>
      have hit := hentries it (List.mem_cons_self ..)
      rw [emitBranches, ih _ fun it' h => hentries it' (List.mem_cons_of_mem _ h)]
      have hint := ((((out.str "    \x7b\"pc\": \"0x").hex.uint it.1.toNat).str
        "\", \"miss\": ").dec).text_int rfl hit
      rw [branchLines]
      unfold branchText
      split <;> simp [hint, Base.radix]

theorem isPlain_digitChar : ∀ d < 16, isPlain (Nat.digitChar d) := by
  decide

theorem isPlain_pcString (ip : ADDRINT) : (pcString ip).toList.all isPlain := by
  rw [pcString, String.toList_append, List.all_append, Bool.and_eq_true]
  refine ⟨by decide, List.all_eq_true.mpr ?_⟩
  intro c hc
  rw [String.toList_ofList] at hc
  obtain ⟨d, hd, rfl⟩ := exists_digit_of_mem_toDigits (by decide) hc
  exact isPlain_digitChar d hd

theorem isNumber_miss {n : Int32} (hn : 0 ≤ n.toInt) :
    IsNumber (Nat.toDigits 10 n.toInt.natAbs) n.toInt := by
  have hcast : ((n.toInt.natAbs : ℕ) : ℚ) = n.toInt := by
    rw [← Int.cast_natCast, Int.natAbs_of_nonneg hn]
  rw [← hcast]
  exact isNumber_toDigits _

theorem reads_branch {it : ADDRINT × Int32} (hit : 0 ≤ it.2.toInt) (depth : ℕ) :
    Reads (value (depth + 2)) (branchText it) (branchJson it) := by
  have hpc := reads_string (isPlain_pcString it.1) depth
  have hmiss := reads_number (isNumber_miss hit) depth
  have h : Reads (value (depth + 2)) _ _ := reads_obj (.cons "" (reads_member "pc" " " hpc) ""
    (.last " " (reads_member "miss" " " hmiss) ""))
  unfold branchText branchJson
  simpa [pcString] using h

theorem items_branches {entries : List (ADDRINT × Int32)} (hne : entries ≠ [])
    (hentries : ∀ it ∈ entries, 0 ≤ it.2.toInt) (depth : ℕ) :
    Items (value (depth + 2)) ']' ("\n".toList ++ (branchLines entries ++ "  ]".toList))
      (entries.map branchJson) := by
  induction entries with
  | nil => exact absurd rfl hne
  | cons it rest ih =>
      have hit := reads_branch (hentries it (List.mem_cons_self ..)) depth
      cases rest with
      | nil =>
          have h : Items _ ']' _ _ := .last "\n    " hit "\n  "
          simpa [branchLines] using h
      | cons it' rest =>
          have hrest := ih (List.cons_ne_nil _ _) fun it'' h =>
            hentries it'' (List.mem_cons_of_mem _ h)
          have h := Items.cons "\n    " hit "" hrest
          simpa [branchLines] using h

theorem reads_branches {entries : List (ADDRINT × Int32)}
    (hentries : ∀ it ∈ entries, 0 ≤ it.2.toInt) (depth : ℕ) :
    Reads (value (depth + 3)) ("[\n".toList ++ (branchLines entries ++ "  ]".toList))
      (.arr (entries.map branchJson)) := by
  by_cases hne : entries = []
  · subst hne
    exact reads_arr_empty "\n  " (depth + 2)
  · exact reads_arr (items_branches hne hentries depth)

/-! ## The file -/

set_option maxRecDepth 2000 in
/-- The text of the file, in the order it is written. -/
theorem fini_eq (showDouble : Double → List Char) {s : State}
    (hentries : ∀ it ∈ s.mispredBranch.toList, 0 ≤ it.2.toInt) :
    fini showDouble s =
      "\x7b\n  \"summary\": ".toList ++
      (Document.summaryText s.total (showDouble (accuracy s.predH s.correctH)) "Hybrid"
        (s.predH - s.correctH) ++
      (",\n  \"predictors\": \x7b\n    \"1-bit\": ".toList ++
        (showDouble (accuracy s.predictions s.correct) ++
      (",\n    \"2-bit\": ".toList ++ (showDouble (accuracy s.pred2 s.correct2) ++
      (",\n    \"Hybrid\": ".toList ++ (showDouble (accuracy s.predH s.correctH) ++
      ("\n  \x7d,\n  \"branches\": [\n".toList ++ (branchLines s.mispredBranch.toList ++
      "  ]\n\x7d".toList))))))))) := by
  unfold fini Document.summaryText
  simp [text_emitBranches _ _ hentries, Base.radix]

/-- **The file is the document.** -/
theorem parse_fini {showDouble : Double → List Char} {num : Double → ℚ} {s : State}
    (hshow : ∀ p ∈ (document s).predictors, IsNumber (showDouble p.2) (num p.2))
    (hentries : ∀ it ∈ s.mispredBranch.toList, 0 ≤ it.2.toInt) :
    parse (fini showDouble s) = some ((document s).toJson num) := by
  have h1 := hshow ("1-bit", accuracy s.predictions s.correct) (by simp [document])
  have h2 := hshow ("2-bit", accuracy s.pred2 s.correct2) (by simp [document])
  have hH := hshow ("Hybrid", accuracy s.predH s.correctH) (by simp [document])
  rw [fini_eq showDouble hentries]
  apply parse_of_reads (?_ : 4 ≤ _)
  · intro n
    have hsummary := Document.reads_summary s.total hH "Hybrid" (by decide)
      (s.predH - s.correctH) (n + 1)
    have hpredictors : Reads (value (n + 3)) _ _ := reads_obj
      (.cons "\n    " (reads_member "1-bit" " " (reads_number h1 (n + 1))) ""
      (.cons "\n    " (reads_member "2-bit" " " (reads_number h2 (n + 1))) ""
      (.last "\n    " (reads_member "Hybrid" " " (reads_number hH (n + 1))) "\n  ")))
    have h : Reads (value (n + 4)) _ _ := reads_obj
      (.cons "\n  " (reads_member "summary" " " hsummary) ""
      (.cons "\n  " (reads_member "predictors" " " hpredictors) ""
      (.last "\n  " (reads_member "branches" " " (reads_branches hentries n)) "\n")))
    simpa [document, Document.toJson] using h
  · rw [List.length_append]
    exact Nat.le_add_right_of_le (by decide)

end BranchPrediction.MyBranch
