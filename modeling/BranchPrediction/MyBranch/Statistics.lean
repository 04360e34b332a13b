import BranchPrediction.MyBranch.Replay
import Mathlib.Algebra.BigOperators.Ring.Finset

/-!
# The statistics are sums over branches

A run of `MyBranch` from the initial globals leaves in its tables, at every
address, the replay of that branch's own outcomes, and in its counters the sums
of what the replays count.  How the branches are interleaved does not matter:
the right-hand sides of `Replayed` mention the stream through
`Range.outcomes` and `Range.eventsOf` alone.

The counters are sums for every stream.  `mispredBranch` holds 32-bit integers,
and only they need the stream to be shorter than `2 ^ 31`.
-/

namespace BranchPrediction.MyBranch

open Automata Cpp

/-- The `int` a count is held in, and no entry for a count of zero. -/
def counted (n : ℕ) : Option Int32 :=
  if n = 0 then none else some (Int32.ofNat n)

theorem counted_succ (n : ℕ) : some ((counted n).getD 0 + 1) = counted (n + 1) := by
  unfold counted
  rw [if_neg n.succ_ne_zero, Int32.ofNat_add]
  split
  · next h => rw [h]; rfl
  · rfl

theorem toInt_counted {n : ℕ} (hn : n < 2 ^ 31) : ((counted n).getD 0).toInt = n := by
  unfold counted
  split
  · next h => rw [h]; rfl
  · exact Int32.toInt_ofNat_of_lt hn

/-- The entry counts the hybrid's misses on the branch, modulo the width of an `int`. -/
theorem mispred_foldl {c : Slice} {r : Replay} (h : Tracks c r) {n : ℕ}
    (hn : c.mispred = counted n) (l : List Event) :
    (l.foldl Slice.record c).mispred =
      counted (n + runCost Replay.step (miss id Replay.chosen) r (l.map Event.isTaken)) := by
  induction l generalizing c r n with
  | nil => exact hn
  | cons e l ih =>
      have hstep : (c.record e).mispred = counted (n + miss id Replay.chosen r e.isTaken) := by
        simp only [Slice.record, h.finalPred_eq, miss, id, hn]
        split
        · rfl
        · exact counted_succ n
      rw [List.foldl_cons, ih (h.record e) hstep, List.map_cons, runCost_cons, Nat.add_assoc]

/-- The trace of a branch, and no entry for a branch without one. -/
def recorded (l : List Event) : Option (List BranchTrace) :=
  if l = [] then none else some (l.map Event.trace)

theorem recorded_concat (l : List Event) (e : Event) :
    some ((recorded l).getD [] ++ [e.trace]) = recorded (l ++ [e]) := by
  unfold recorded
  split
  · next h => simp [h]
  · simp

theorem history_foldl {c : Slice} {past : List Event} (h : c.history = recorded past)
    (l : List Event) : (l.foldl Slice.record c).history = recorded (past ++ l) := by
  induction l generalizing c past with
  | nil => rw [List.append_nil]; exact h
  | cons e l ih =>
      have hstep : (c.record e).history = recorded (past ++ [e]) := by
        rw [← recorded_concat, ← h]
        rfl
      rw [List.foldl_cons, ih hstep, List.append_assoc]
      rfl

theorem history_run (range : Range) (es : List Event) (ip : ADDRINT) :
    (run range es {}).history[ip]? = recorded (range.eventsOf es ip) := by
  have hempty : Slice.empty.history = recorded [] := rfl
  have h := history_foldl hempty (range.eventsOf es ip)
  rw [← slice_initial ip, ← slice_run] at h
  exact h

theorem mispredBranch_run (range : Range) (es : List Event) (ip : ADDRINT) :
    (run range es {}).mispredBranch[ip]? = counted (chooserMisses (range.outcomes es ip)) := by
  have h := mispred_foldl tracks_empty (n := 0) rfl (range.eventsOf es ip)
  rw [← slice_initial ip, ← slice_run, Nat.zero_add] at h
  exact h

theorem chooserMisses_le (l : List Bool) : chooserMisses l ≤ l.length :=
  runCost_le_length _ _ (miss_le_one _ _) _ _

/-- Nothing is counted more often than the stream is long. -/
theorem chooserMisses_le_length (range : Range) (es : List Event) (ip : ADDRINT) :
    chooserMisses (range.outcomes es ip) ≤ es.length :=
  calc chooserMisses (range.outcomes es ip)
      ≤ (range.outcomes es ip).length := chooserMisses_le _
    _ = (range.eventsOf es ip).length := List.length_map _
    _ ≤ es.length := List.length_filter_le _ _

/-- Mispredictions held as the counts of a map add up to the total of the counts. -/
theorem sum_counted {m : Map ADDRINT Int32} {n : ADDRINT → ℕ} {K : Finset ADDRINT}
    (hm : ∀ ip, m[ip]? = counted (n ip)) (hn : ∀ ip, n ip < 2 ^ 31)
    (hK : ∀ ip, n ip ≠ 0 → ip ∈ K) :
    (m.toList.map fun p => p.2.toInt).sum = ((∑ ip ∈ K, n ip : ℕ) : ℤ) := by
  rw [m.sum_toList (fun _ v => Int32.toInt v) (K := K), Nat.cast_sum]
  · apply Finset.sum_congr rfl
    intro ip _
    rw [← toInt_counted (hn ip), hm]
    cases counted (n ip) <;> rfl
  · intro ip v hv
    apply hK ip
    intro h0
    rw [hm, counted, if_pos h0] at hv
    cases hv

theorem sum_mispredBranch (range : Range) (es : List Event) (hes : es.length < 2 ^ 31) :
    ((run range es {}).mispredBranch.toList.map fun p => p.2.toInt).sum =
      ((∑ ip ∈ range.branches es, chooserMisses (range.outcomes es ip) : ℕ) : ℤ) :=
  sum_counted (mispredBranch_run range es)
    (fun ip => (chooserMisses_le_length range es ip).trans_lt hes) fun ip h => by
      by_contra hip
      rw [range.outcomes_eq_nil hip] at h
      exact h rfl

/-- The globals hold the replays of the branches' outcome strings, and their sums. -/
structure Replayed (range : Range) (es : List Event) (s : State) : Prop where
  total : s.total = ∑ ip ∈ range.branches es, (range.outcomes es ip).length
  taken : s.taken = ∑ ip ∈ range.branches es, (range.outcomes es ip).count true
  nottaken : s.nottaken = ∑ ip ∈ range.branches es, (range.outcomes es ip).count false
  predictions : s.predictions = s.total
  pred2 : s.pred2 = s.total
  predH : s.predH = s.total
  miss1 : s.predictions = s.correct + ∑ ip ∈ range.branches es, changes (range.outcomes es ip)
  miss2 : s.pred2 = s.correct2 + ∑ ip ∈ range.branches es, twoBitMisses (range.outcomes es ip)
  missH : s.predH = s.correctH + ∑ ip ∈ range.branches es, chooserMisses (range.outcomes es ip)
  mispredBranch : ∀ ip, (s.mispredBranch.read ip).toInt = chooserMisses (range.outcomes es ip)
  bht : ∀ ip, s.bht[ip]? = (range.outcomes es ip).getLast?
  bht2 : ∀ ip, s.bht2[ip]?.map (fun state => (state.toNat : ℤ)) =
    if range.outcomes es ip = [] then none else some (Replay.after (range.outcomes es ip)).two.val
  selector : ∀ ip, s.selector[ip]?.map (fun sel => (sel.toNat : ℤ)) =
    if range.outcomes es ip = [] then none
    else some (Replay.after (range.outcomes es ip)).chooser.val
  history : ∀ ip, s.history[ip]? =
    if range.outcomes es ip = [] then none else some ((range.eventsOf es ip).map Event.trace)

/-! ### The counters -/

theorem sum_runCost_input (range : Range) (es : List Event) (f : Bool → ℕ) (s : State) :
    ∑ ip ∈ range.branches es,
        runCost Slice.record (fun _ e => f e.isTaken) (slice s ip) (range.eventsOf es ip) =
      ∑ ip ∈ range.branches es, ((range.outcomes es ip).map f).sum := by
  apply Finset.sum_congr rfl
  intro ip _
  rw [runCost_input, Range.outcomes, List.map_map]
  rfl

/-- A counter that grows with the outcome alone adds up over the outcome strings. -/
theorem outcome_counter_run {range : Range} {q : State → ℕ} {f : Bool → ℕ}
    (hq : ∀ s e, range.Contains e.ip → q (step range s e) = q s + f e.isTaken) (es : List Event) :
    q (run range es {}) = q {} +
      ∑ ip ∈ range.branches es, ((range.outcomes es ip).map f).sum := by
  rw [← sum_runCost_input range es f {}]
  exact counter_run (c := fun _ e => f e.isTaken) hq es {}

/-- A counter of the events adds up to the lengths of the outcome strings. -/
theorem event_counter_run {range : Range} {q : State → ℕ}
    (hq : ∀ s e, range.Contains e.ip → q (step range s e) = q s + 1) (h0 : q {} = 0)
    (es : List Event) :
    q (run range es {}) = ∑ ip ∈ range.branches es, (range.outcomes es ip).length := by
  rw [outcome_counter_run (f := fun _ => 1) hq, h0, Nat.zero_add]
  simp

theorem total_run (range : Range) (es : List Event) :
    (run range es {}).total = ∑ ip ∈ range.branches es, (range.outcomes es ip).length :=
  event_counter_run (fun s _ h => (counters_step h s).1) rfl es

/-- Each predictor is asked at every event that is counted. -/
theorem predictions_run (range : Range) (es : List Event) :
    (run range es {}).predictions = (run range es {}).total ∧
      (run range es {}).pred2 = (run range es {}).total ∧
      (run range es {}).predH = (run range es {}).total := by
  rw [total_run]
  refine ⟨?_, ?_, ?_⟩
  · exact event_counter_run (fun s _ he => (counters_step he s).2.1) rfl es
  · exact event_counter_run (fun s _ he => (counters_step he s).2.2.1) rfl es
  · exact event_counter_run (fun s _ he => (counters_step he s).2.2.2.1) rfl es

theorem sum_map_count (l : List Bool) (b : Bool) :
    (l.map fun a => if a = b then 1 else 0).sum = l.count b := by
  induction l with
  | nil => rfl
  | cons a l ih =>
      rw [List.map_cons, List.sum_cons, ih, List.count_cons, Nat.add_comm]
      simp only [beq_iff_eq]

theorem miss1_run (range : Range) (es : List Event) :
    (run range es {}).predictions =
      (run range es {}).correct + ∑ ip ∈ range.branches es, changes (range.outcomes es ip) := by
  have h := scored1_run range es {}
  simp only [slice_initial, tracks_empty.runCost_pred1, runCost_miss1] at h
  change _ + 0 = 0 + _ + ∑ ip ∈ range.branches es, changes (range.outcomes es ip) at h
  omega

theorem miss2_run (range : Range) (es : List Event) :
    (run range es {}).pred2 =
      (run range es {}).correct2 +
        ∑ ip ∈ range.branches es, twoBitMisses (range.outcomes es ip) := by
  have h := scored2_run range es {}
  simp only [slice_initial, tracks_empty.runCost_pred2Val, runCost_twoPred] at h
  change _ + 0 = 0 + _ + ∑ ip ∈ range.branches es, twoBitMisses (range.outcomes es ip) at h
  omega

theorem missH_run (range : Range) (es : List Event) :
    (run range es {}).predH =
      (run range es {}).correctH +
        ∑ ip ∈ range.branches es, chooserMisses (range.outcomes es ip) := by
  have h := scoredH_run range es {}
  simp only [slice_initial, tracks_empty.runCost_finalPred] at h
  change _ + 0 = 0 + _ + ∑ ip ∈ range.branches es, chooserMisses (range.outcomes es ip) at h
  omega

/-- An entry that is there exactly when the branch has been executed. -/
theorem map_toNat_of_tracks {entry : Option UInt8} {last : Option Bool} {v : ℤ}
    (hsome : entry.isSome = last.isSome) (hv : ((entry.getD 2).toNat : ℤ) = v) :
    entry.map (fun state => (state.toNat : ℤ)) = if last = none then none else some v := by
  cases entry with
  | none => cases last <;> simp_all
  | some state => cases last <;> simp_all

/-- **Statistics are a function of each branch's own outcome string.** -/
theorem run_replayed (range : Range) (es : List Event) (hes : es.length < 2 ^ 31) :
    Replayed range es (run range es {}) := by
  have htracks := tracks_run range es
  have hlast : ∀ ip, (Replay.after (range.outcomes es ip)).last = none ↔
      range.outcomes es ip = [] := fun ip => by rw [Replay.last_after, List.getLast?_eq_none_iff]
  have hpredictions := predictions_run range es
  exact
    { total := total_run range es
      taken := by
        rw [outcome_counter_run (f := fun b => if b = true then 1 else 0)
          fun s e he => (counters_step he s).2.2.2.2.1]
        simp only [sum_map_count, Nat.zero_add]
      nottaken := by
        rw [outcome_counter_run (f := fun b => if b = false then 1 else 0)
          fun s e he => ((counters_step he s).2.2.2.2.2).trans (by cases e.isTaken <;> rfl)]
        simp only [sum_map_count, Nat.zero_add]
      predictions := hpredictions.1
      pred2 := hpredictions.2.1
      predH := hpredictions.2.2
      miss1 := miss1_run range es
      miss2 := miss2_run range es
      missH := missH_run range es
      mispredBranch := by
        intro ip
        rw [Map.read, mispredBranch_run]
        exact toInt_counted ((chooserMisses_le_length range es ip).trans_lt hes)
      bht := fun ip => (htracks ip).bht.trans (Replay.last_after _)
      bht2 := by
        intro ip
        simp only [← hlast]
        exact map_toNat_of_tracks (htracks ip).bht2_isSome (htracks ip).bht2
      selector := by
        intro ip
        simp only [← hlast]
        exact map_toNat_of_tracks (htracks ip).selector_isSome (htracks ip).selector
      history := by
        intro ip
        rw [history_run, recorded]
        simp [Range.outcomes] }

theorem run_replayed_three : Replayed ⟨1, 9⟩ [⟨4, 5, true⟩, ⟨4, 5, false⟩, ⟨7, 4, true⟩]
    (run ⟨1, 9⟩ [⟨4, 5, true⟩, ⟨4, 5, false⟩, ⟨7, 4, true⟩] {}) :=
  run_replayed _ _ (by decide)

end BranchPrediction.MyBranch
