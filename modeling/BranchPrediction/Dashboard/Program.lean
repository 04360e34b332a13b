import BranchPrediction.Dashboard.Page
import BranchPrediction.Session

/-!
# From the process to the page

A program is run once under each tool, the two result files are fetched, and the
page is drawn.  What its cards and its list of branches say is put here in terms of
the program alone: which branches of its main executable were executed, and with
which outcomes.
-/

namespace BranchPrediction.Dashboard

open Session

/-- The row of a branch that was missed. -/
def missedRow (ip : ADDRINT) (misses : ℕ) : Row where
  pc := some (.str (pcString ip))
  badge := if misses < 5 then "loop" else "cond"
  code := some (.str "if (condition)")
  miss := some (.num misses)

section

variable {range : Range} {es : List Event} (hes : es.length < 2 ^ 31)
include hes

/-- The row of an entry of `mispredBranch`. -/
theorem rowOf_eq {it : ADDRINT × Int32}
    (hit : it ∈ (MyBranch.run range es {}).mispredBranch.toList) :
    rowOf it = missedRow it.1 (MyBranch.chooserMisses (range.outcomes es it.1)) := by
  have hget := Std.ExtTreeMap.mem_toList_iff_getElem?_eq_some.mp hit
  have hcount := MyBranch.toInt_counted
    ((MyBranch.chooserMisses_le_length range es it.1).trans_lt hes)
  rw [← MyBranch.mispredBranch_run, hget, Option.getD_some] at hcount
  rw [rowOf, missedRow, hcount]
  simp [badge, greater, number]

/-- The rows of the page are those of the branches that were missed, by their addresses. -/
theorem map_rowOf : (MyBranch.run range es {}).mispredBranch.toList.map rowOf =
    (MyBranch.run range es {}).mispredBranch.keys.map fun ip =>
      missedRow ip (MyBranch.chooserMisses (range.outcomes es ip)) := by
  rw [← Std.ExtTreeMap.map_fst_toList_eq_keys, List.map_map]
  exact List.map_congr_left fun it hit => rowOf_eq hes hit

omit hes in
theorem mem_keys_mispredBranch (ip : ADDRINT) :
    ip ∈ (MyBranch.run range es {}).mispredBranch.keys ↔
      0 < MyBranch.chooserMisses (range.outcomes es ip) := by
  rw [Std.ExtTreeMap.mem_keys, Std.ExtTreeMap.mem_iff_isSome_getElem?, MyBranch.mispredBranch_run,
    MyBranch.counted]
  split
  · next hzero => simp [hzero]
  · next hne => simpa using Nat.pos_of_ne_zero hne

end

theorem inRange_inRange (range : Range) (es : List Event) :
    range.inRange (range.inRange es) = range.inRange es := by
  simp [Range.inRange]

/-- **The page is about the program.**  When a program has run under either tool, the
page drawn from the two files shows the number of executions of branches of its main
executable, those the hybrid missed, and a row for each branch it missed, with how
often: whatever the rest of the process did, and however it ran the second time. -/
theorem page_of_processes {isBranch : ADDRINT → Bool} {before after before' after' : List Callback}
    {main : Range} (h : Process isBranch before main after)
    (h' : Process isBranch before' main after')
    (hsame : main.inRange (executed isBranch after') = main.inRange (executed isBranch after))
    (hshort : (main.inRange (executed isBranch after)).length < 2 ^ 31) :
    let branches := main.inRange (executed isBranch after)
    let misses := fun ip => MyBranch.chooserMisses (main.outcomes branches ip)
    ∃ (hybrid tage : Json.Value) (page : Page) (missed : List ADDRINT),
      (json (MyBranch.fini showAccuracy (ended MyBranch.step {} before main after)) = some hybrid ∧
        json (MyTage.fini showAccuracy (ended MyTage.step {} before' main after')) = some tage ∧
        (render (some hybrid) (some tage) index).2 = page) ∧
      page.innerText "total" = some (.num branches.length) ∧
      page.innerText "mispred" = some (.num (∑ ip ∈ main.branches branches, misses ip : ℕ)) ∧
      (missed.Pairwise (· < ·) ∧ ∀ ip, ip ∈ missed ↔ 0 < misses ip) ∧
      page.branchList = missed.map fun ip => missedRow ip (misses ip) := by
  intro branches misses
  rw [h.ended_myBranch, h'.ended_myTage, hsame]
  let a := MyBranch.run main branches {}
  let b := MyTage.run main branches {}
  have hdrawn : (render (some ((MyBranch.document a).toJson fetched))
      (some ((MyTage.document b).toJson fetched)) index).2 = index.display fetched a b :=
    loaded_eq fetched a b
  refine ⟨_, _, index.display fetched a b, a.mispredBranch.keys,
    ⟨json_hybrid main branches hshort, json_tage main branches hshort, hdrawn⟩, ?_, ?_,
    ⟨a.mispredBranch.ordered_keys.imp Std.compare_eq_lt.mp, mem_keys_mispredBranch⟩, ?_⟩
  · have hcount : b.total = (main.path branches).length := (MyTage.counters_run main branches).1
    have hagree : b.total = a.total := (agrees_run main branches).total
    rw [Range.path, inRange_inRange, List.length_map] at hcount
    rw [← hcount, hagree]
    simp [Page.display, Page.setRows, Page.setText]
  · have hmissed : a.predH = a.correctH + ∑ ip ∈ main.branches branches, misses ip :=
      MyBranch.missH_run main branches
    rw [← Nat.sub_eq_of_eq_add' hmissed]
    simp [Page.display, Page.setRows, Page.setText]
  · have hrows : a.mispredBranch.toList.map rowOf =
        a.mispredBranch.keys.map fun ip => missedRow ip (misses ip) := map_rowOf hshort
    rw [← hrows]
    simp [Page.display, Page.setRows]

theorem page_of_processes_library : ∃ (hybrid tage : Json.Value) (page : Page),
    json (MyBranch.fini showAccuracy (ended MyBranch.step {} libraryBefore ⟨1, 9⟩ libraryAfter)) =
        some hybrid ∧
      json (MyTage.fini showAccuracy (ended MyTage.step {} libraryBefore ⟨1, 9⟩ libraryAfter)) =
        some tage ∧
      (render (some hybrid) (some tage) index).2 = page ∧
      page.innerText "total" = some (.num 1) := by
  obtain ⟨hybrid, tage, page, -, ⟨hhybrid, htage, hpage⟩, htotal, -⟩ :=
    page_of_processes process_library process_library rfl (by decide)
  have hlength : (Range.inRange ⟨1, 9⟩ (executed (fun _ => true) libraryAfter)).length = 1 := by
    decide
  rw [hlength, Nat.cast_one] at htotal
  exact ⟨hybrid, tage, page, hhybrid, htage, hpage, htotal⟩

end BranchPrediction.Dashboard
