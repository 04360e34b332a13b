import BranchPrediction.MyBranch.Statistics
import BranchPrediction.MyTage.Step

/-!
# The books of `MyTage`

Every event in range is counted once, as a prediction, by the clock, and as
taken or not taken; every misprediction is missing from `tageCorrect` and
charged to its branch.  Unlike in `MyBranch` a branch's mispredictions are not a
function of its own outcomes, since the tagged tables are shared, so `misses`
reads them off the run.
-/

namespace BranchPrediction.MyTage

open Automata
open MyBranch (counted counted_succ)

/-- The charge of an event to a branch: one if it is an event of the branch and
mispredicted. -/
def missOf (range : Range) (ip : ADDRINT) (s : State) (e : Event) : ℕ :=
  if range.key e = some ip then if (s.lookup e.ip).prediction = e.isTaken then 0 else 1 else 0

theorem missOf_of_contains {range : Range} {e : Event} (h : range.Contains e.ip) (ip : ADDRINT)
    (s : State) :
    missOf range ip s e =
      if e.ip = ip then if (s.lookup e.ip).prediction = e.isTaken then 0 else 1 else 0 := by
  simp only [missOf, range.key_of_contains h, Option.some_inj]

theorem missOf_of_not_contains {range : Range} {e : Event} (h : ¬ range.Contains e.ip)
    (ip : ADDRINT) (s : State) : missOf range ip s e = 0 := by
  simp [missOf, range.key_of_not_contains h]

/-- The mispredictions of a branch in a run from the initial globals. -/
def misses (range : Range) (es : List Event) (ip : ADDRINT) : ℕ :=
  runCost (step range) (missOf range ip) {} es

theorem misses_concat (range : Range) (es : List Event) (e : Event) (ip : ADDRINT) :
    misses range (es ++ [e]) ip =
      misses range es ip + missOf range ip (run range es {}) e :=
  runCost_concat _ _ _ _ _

theorem misses_le_length (range : Range) (es : List Event) (ip : ADDRINT) :
    misses range es ip ≤ es.length := by
  have hone : ∀ s e, missOf range ip s e ≤ 1 := by
    intro s e
    unfold missOf
    split_ifs <;> omega
  exact runCost_le_length _ _ hone _ _

theorem misses_eq_zero {range : Range} {es : List Event} {ip : ADDRINT}
    (h : ip ∉ range.branches es) : misses range es ip = 0 := by
  induction es using List.reverseRecOn with
  | nil => rfl
  | append_singleton es e ih =>
      simp only [range.mem_branches_iff, List.mem_append, List.mem_singleton] at h ih
      have hes : ¬ ∃ e ∈ es, range.key e = some ip := fun ⟨e, he, hkey⟩ => h ⟨e, Or.inl he, hkey⟩
      have hkey : range.key e ≠ some ip := fun hkey => h ⟨e, Or.inr rfl, hkey⟩
      rw [misses_concat, ih hes, missOf, if_neg hkey]

/-- A branch's entry counts its mispredictions, modulo the width of an `int`. -/
theorem mispredPerBranch_run (range : Range) (es : List Event) (ip : ADDRINT) :
    (run range es {}).mispredPerBranch[ip]? = counted (misses range es ip) := by
  induction es using List.reverseRecOn with
  | nil => rfl
  | append_singleton es e ih =>
      rw [run_concat, misses_concat]
      by_cases h : range.Contains e.ip
      · have hstep := congrArg Slice.mispred (slice_step_of_contains h (run range es {}) ip)
        apply hstep.trans
        rw [missOf_of_contains h]
        by_cases hip : e.ip = ip
        · rw [if_pos hip, if_pos hip]
          by_cases hp : ((run range es {}).lookup e.ip).prediction = e.isTaken
          · rw [if_pos hp, Nat.add_zero, ← ih]
            simp [Slice.record, hp, slice]
          · rw [if_neg hp, ← counted_succ, ← ih]
            simp [Slice.record, hp, slice]
        · rw [if_neg hip, if_neg hip, Nat.add_zero, ← ih]
          rfl
      · rw [missOf_of_not_contains h, Nat.add_zero, ← ih]
        exact congrArg (fun s : State => s.mispredPerBranch[ip]?) (step_of_not_contains h _)

/-- The predictions made are those that were right and those charged to a branch. -/
theorem tagePred_run (range : Range) (es : List Event) {K : Finset ADDRINT}
    (hK : range.branches es ⊆ K) :
    (run range es {}).tagePred =
      (run range es {}).tageCorrect + ∑ ip ∈ K, misses range es ip := by
  induction es using List.reverseRecOn with
  | nil => simp [run, misses]
  | append_singleton es e ih =>
      have hes : range.branches es ⊆ K := by
        intro ip hip
        obtain ⟨e', he', hkey⟩ := range.mem_branches_iff.mp hip
        exact hK (range.mem_branches_iff.mpr ⟨e', List.mem_append_left _ he', hkey⟩)
      simp only [misses_concat, Finset.sum_add_distrib, run_concat]
      by_cases h : range.Contains e.ip
      · have hmem : e.ip ∈ K := hK (by simp [Range.branches, range.key_of_contains h])
        have hsum : ∑ ip ∈ K, missOf range ip (run range es {}) e =
            if ((run range es {}).lookup e.ip).prediction = e.isTaken then 0 else 1 := by
          simp [missOf_of_contains h, hmem]
        rw [hsum]
        have hpred := (counters_step h (run range es {})).2.1
        have hright := tageCorrect_step h (run range es {})
        rw [hpred, hright, ih hes]
        split <;> omega
      · simp only [step_of_not_contains h, missOf_of_not_contains h, Finset.sum_const_zero,
          Nat.add_zero, ih hes]

/-- The charge of an event for being mispredicted. -/
def wrong (range : Range) (s : State) (e : Event) : ℕ :=
  if range.Contains e.ip ∧ s.prediction e.ip ≠ e.isTaken then 1 else 0

/-- The mispredicted events of a stream. -/
def missed (range : Range) (s : State) (es : List Event) : ℕ :=
  runCost (step range) (wrong range) s es

theorem missed_concat (range : Range) (s : State) (es : List Event) (e : Event) :
    missed range s (es ++ [e]) = missed range s es + wrong range (run range es s) e :=
  runCost_concat _ _ _ _ _

/-- Mispredicted events are the predictions that are not counted as right. -/
theorem missed_run (range : Range) (s : State) (es : List Event) :
    (run range es s).tagePred + s.tageCorrect =
      s.tagePred + (run range es s).tageCorrect + missed range s es := by
  induction es using List.reverseRecOn with
  | nil => rfl
  | append_singleton es e ih =>
      rw [missed_concat, run_concat]
      by_cases h : range.Contains e.ip
      · have hpred := (counters_step h (run range es s)).2.1
        rw [hpred, tageCorrect_step h, lookup_prediction, wrong]
        by_cases hp : (run range es s).prediction e.ip = e.isTaken
        · simp only [hp, if_true, ne_eq, not_true, and_false, if_false]
          omega
        · simp only [h, hp, if_false, ne_eq, not_false_eq_true, and_self, if_true]
          omega
      · rw [step_of_not_contains h, wrong, if_neg fun hc => h hc.1]
        omega

/-- The counters of the events agree with each other. -/
theorem counters_run (range : Range) (es : List Event) :
    (run range es {}).total = (range.path es).length ∧
      (run range es {}).tagePred = (range.path es).length ∧
      (run range es {}).clock = (range.path es).length ∧
      (run range es {}).taken + (run range es {}).nottaken = (range.path es).length := by
  induction es using List.reverseRecOn with
  | nil => exact ⟨rfl, rfl, rfl, rfl⟩
  | append_singleton es e ih =>
      rw [run_concat]
      by_cases h : range.Contains e.ip
      · obtain ⟨htotal, hpred, hclock, htaken, hnottaken⟩ := counters_step h (run range es {})
        rw [range.length_path_concat_of_contains es h, htotal, hpred, hclock, htaken, hnottaken,
          ih.1, ih.2.1, ih.2.2.1, ← ih.2.2.2]
        refine ⟨rfl, rfl, rfl, ?_⟩
        split <;> omega
      · rw [range.path_concat_of_not_contains es h, step_of_not_contains h]
        exact ih

end BranchPrediction.MyTage
