import BranchPrediction.MyBranch.Report
import BranchPrediction.Representation
import BranchPrediction.MyTage.Report
import Mathlib.Data.List.Sort

/-!
# What the reports say about a run

The lines of the trace are the branches of a run in the order of their
addresses, and they are the same in both reports.  Since the statistics of
`MyBranch` depend on the outcome strings alone, its report determines itself and
the result file: fed back into the tool, the trace of a report gives the report
and the result file again (`report_replays`).
-/

namespace BranchPrediction

open Cpp Automata
open MyBranch (changes twoBitMisses chooserMisses)

namespace Range

/-- The line of a branch. -/
def line (range : Range) (es : List Event) (ip : ADDRINT) : TraceLine where
  pc := ip
  target := (range.eventsOf es ip).getLast?.elim 0 Event.target
  outcomes := range.outcomes es ip
  calls := (range.outcomes es ip).length

end Range

/-! ## The trace of a run -/

theorem letter_eq_iff (outcome : Bool) : letter outcome = 'T' ↔ outcome = true := by
  cases outcome <;> decide

theorem letter_or (outcome : Bool) : letter outcome = 'T' ∨ letter outcome = 'N' := by
  cases outcome <;> decide

/-- The entry of a branch in `history` gives its line. -/
theorem ofEntry_recorded {range : Range} {es : List Event} {ip : ADDRINT}
    {traces : List BranchTrace} (h : MyBranch.recorded (range.eventsOf es ip) = some traces) :
    TraceLine.ofEntry (ip, traces) = range.line es ip := by
  obtain ⟨hne, rfl⟩ := MyBranch.eq_of_recorded h
  have hlast : (back ((range.eventsOf es ip).map Event.trace)).target =
      (range.eventsOf es ip).getLast?.elim 0 Event.target := by
    rw [back, List.getLastD_eq_getLast?, List.getLast?_map,
      List.getLast?_eq_some_getLast hne]
    rfl
  have houtcomes : ((range.eventsOf es ip).map Event.trace).map
      (fun entry => decide (entry.outcome = 'T')) = range.outcomes es ip := by
    rw [List.map_map]
    apply List.map_congr_left
    intro e _
    exact (Bool.decide_congr (letter_eq_iff e.isTaken)).trans Bool.decide_eq_true
  rw [TraceLine.ofEntry, Range.line, hlast, houtcomes, List.length_map, Range.outcomes,
    List.length_map]

section

variable (range : Range) (es : List Event)

theorem lettered_run :
    ∀ it ∈ (MyBranch.run range es {}).history.toList, Lettered it.2 := by
  intro it hit
  have hget := Std.ExtTreeMap.mem_toList_iff_getElem?_eq_some.mp hit
  rw [MyBranch.history_run] at hget
  obtain ⟨-, htraces⟩ := MyBranch.eq_of_recorded hget
  rw [← htraces]
  intro entry hentry
  obtain ⟨e, -, rfl⟩ := List.mem_map.mp hentry
  exact letter_or e.isTaken

/-- The lines of a run, in the order of the addresses. -/
theorem traceLines_run : traceLines (MyBranch.run range es {}).history =
    (MyBranch.run range es {}).history.keys.map (range.line es) := by
  rw [traceLines, ← Std.ExtTreeMap.map_fst_toList_eq_keys, List.map_map]
  apply List.map_congr_left
  intro it hit
  have hget := Std.ExtTreeMap.mem_toList_iff_getElem?_eq_some.mp hit
  rw [MyBranch.history_run] at hget
  exact ofEntry_recorded hget

theorem mem_keys_history (ip : ADDRINT) :
    ip ∈ (MyBranch.run range es {}).history.keys ↔ range.outcomes es ip ≠ [] := by
  rw [Std.ExtTreeMap.mem_keys, Std.ExtTreeMap.mem_iff_isSome_getElem?, MyBranch.history_run,
    MyBranch.isSome_recorded, ← Range.outcomes, List.getLast?_isSome]

theorem pairwise_keys_history :
    (MyBranch.run range es {}).history.keys.Pairwise (· < ·) :=
  (MyBranch.run range es {}).history.ordered_keys.imp Std.compare_eq_lt.mp

theorem history_run_eq : (MyTage.run range es {}).history = (MyBranch.run range es {}).history :=
  Std.ExtTreeMap.ext_getElem? (agrees_run range es).history

/-- What is added up over the lines is added up over the branches. -/
theorem sum_traceLines (f : TraceLine → ℕ) :
    ((traceLines (MyBranch.run range es {}).history).map f).sum =
      ∑ ip ∈ range.branches es, f (range.line es ip) := by
  have hkeys : (MyBranch.run range es {}).history.keys.toFinset = range.branches es := by
    ext ip
    rw [List.mem_toFinset, mem_keys_history, range.mem_branches_iff_outcomes]
  rw [traceLines_run, List.map_map, ← hkeys,
    List.sum_toFinset _ (MyBranch.run range es {}).history.nodup_keys]
  rfl

end

/-! ## Reports describe runs -/

/-- A report with the lines of a run, whose counts are those of its lines and whose
accuracies those of its mispredictions. -/
structure Describes (range : Range) (es : List Event) (log : Log) : Prop where
  sorted : (log.traces.map TraceLine.pc).Pairwise (· < ·)
  mem_iff : ∀ t, t ∈ log.traces ↔ range.outcomes es t.pc ≠ [] ∧ t = range.line es t.pc
  total : log.total = (log.traces.map TraceLine.calls).sum
  taken : log.taken = (log.traces.map fun t => t.outcomes.count true).sum
  nottaken : log.nottaken = (log.traces.map fun t => t.outcomes.count false).sum
  accuracies : log.accuracies =
    log.mispredictions.map fun m => percent (accuracy64 log.total (log.total - m))

section

variable (range : Range) (es : List Event)

theorem taken_run : (MyBranch.run range es {}).taken =
    ∑ ip ∈ range.branches es, (range.outcomes es ip).count true := by
  rw [MyBranch.outcome_counter_run (f := fun b => if b = true then 1 else 0)
    fun s e he => (MyBranch.counters_step he s).2.2.2.2.1]
  simp only [MyBranch.sum_map_count, Nat.zero_add]

theorem nottaken_run : (MyBranch.run range es {}).nottaken =
    ∑ ip ∈ range.branches es, (range.outcomes es ip).count false := by
  rw [MyBranch.outcome_counter_run (f := fun b => if b = false then 1 else 0)
    fun s e he => ((MyBranch.counters_step he s).2.2.2.2.2).trans (by cases e.isTaken <;> rfl)]
  simp only [MyBranch.sum_map_count, Nat.zero_add]

variable {range es}

theorem describes {log : Log} (htraces : log.traces = traceLines (MyBranch.run range es {}).history)
    (htotal : log.total = (MyBranch.run range es {}).total)
    (htaken : log.taken = (MyBranch.run range es {}).taken)
    (hnottaken : log.nottaken = (MyBranch.run range es {}).nottaken)
    (haccuracies : log.accuracies =
      log.mispredictions.map fun m => percent (accuracy64 log.total (log.total - m))) :
    Describes range es log where
  sorted := by
    rw [htraces, traceLines_run, List.map_map]
    exact (List.map_id _).symm ▸ pairwise_keys_history range es
  mem_iff := by
    intro t
    rw [htraces, traceLines_run, List.mem_map]
    constructor
    · rintro ⟨ip, hip, rfl⟩
      exact ⟨(mem_keys_history range es ip).mp hip, rfl⟩
    · rintro ⟨hne, heq⟩
      exact ⟨t.pc, (mem_keys_history range es t.pc).mpr hne, heq.symm⟩
  total := by
    rw [htraces, sum_traceLines, htotal, MyBranch.total_run]
    rfl
  taken := by
    rw [htraces, sum_traceLines, htaken, taken_run]
    rfl
  nottaken := by
    rw [htraces, sum_traceLines, hnottaken, nottaken_run]
    rfl
  accuracies := haccuracies

/-- What is not mispredicted is right. -/
theorem accuracy64_sub {p c total : ℕ} (hp : p = total) (hc : c ≤ p) :
    accuracy64 total (total - (p - c)) = accuracy64 p c := by
  rw [← hp, Nat.sub_sub_self hc]

theorem describes_myBranch : Describes range es (MyBranch.log (MyBranch.run range es {})) := by
  apply describes rfl rfl rfl rfl
  have hright := MyBranch.right_le_predictions range es
  simp only [MyBranch.scores, List.forall_mem_cons] at hright
  obtain ⟨h1, h2, hH, -⟩ := hright
  obtain ⟨hpredictions, hpred2, hpredH⟩ := MyBranch.predictions_run range es
  simp only [MyBranch.log, List.map_cons, List.map_nil, accuracy64_sub hpredictions h1,
    accuracy64_sub hpred2 h2, accuracy64_sub hpredH hH]

theorem describes_myTage : Describes range es (MyTage.log (MyTage.run range es {})) := by
  have hagree := agrees_run range es
  have hbranches := Finset.Subset.refl (range.branches es)
  have hright := Nat.le.intro (MyTage.tagePred_run range es hbranches).symm
  obtain ⟨htotal, hpred, -, -⟩ := MyTage.counters_run range es
  apply describes (congrArg traceLines (history_run_eq range es)) hagree.total hagree.taken
    hagree.nottaken
  simp only [MyTage.log, List.map_cons, List.map_nil,
    accuracy64_sub (hpred.trans htotal.symm) hright]

theorem lettered_myTage :
    ∀ it ∈ (MyTage.run range es {}).history.toList, Lettered it.2 := by
  rw [history_run_eq]
  exact lettered_run range es

end

/-- **The reports describe the run.**  Either report can be read back; the traces
in both are the same and hold the in-range branches with their last targets and
outcome strings, in the order of the addresses; the counts are those of the trace,
and so are the mispredictions `MyBranch` reports. -/
theorem reports_describe_run (range : Range) (es : List Event) :
    ∃ log log' : Log,
      (readLog MyBranch.layout (MyBranch.report (MyBranch.run range es {})) = some log ∧
        readLog MyTage.layout (MyTage.report (MyTage.run range es {})) = some log') ∧
      (Describes range es log ∧ Describes range es log') ∧
      (log'.traces = log.traces ∧ log'.total = log.total) ∧
      log.mispredictions = [(log.traces.map fun t => changes t.outcomes).sum,
        (log.traces.map fun t => twoBitMisses t.outcomes).sum,
        (log.traces.map fun t => chooserMisses t.outcomes).sum] := by
  have hagree := agrees_run range es
  have h1 := MyBranch.miss1_run range es
  have h2 := MyBranch.miss2_run range es
  have hH := MyBranch.missH_run range es
  refine ⟨_, _, ⟨MyBranch.readLog_report (lettered_run range es),
    MyTage.readLog_report lettered_myTage⟩, ⟨describes_myBranch, describes_myTage⟩,
    ⟨congrArg traceLines (history_run_eq range es), hagree.total⟩, ?_⟩
  simp only [MyBranch.log, sum_traceLines, Range.line, h1, h2, hH, Nat.add_sub_cancel_left]

/-! ## Reports are replayed -/

/-- A range that no event is outside of. -/
def everywhere : Range where
  low := 0
  high := 0xffffffffffffffff

theorem everywhere_key (e : Event) : everywhere.key e = some e.ip := by
  apply Range.key_of_contains
  constructor
  · exact UInt64.le_iff_toNat_le.mpr (Nat.zero_le _)
  · exact UInt64.le_iff_toNat_le.mpr (Nat.le_of_lt_succ e.ip.toNat_lt)

/-- The events of a line, all with the target that is printed. -/
def TraceLine.events (t : TraceLine) : List Event :=
  t.outcomes.map fun outcome => ⟨t.pc, t.target, outcome⟩

/-- A trace as a stream, one branch after the other. -/
def Log.events (log : Log) : List Event :=
  log.traces.flatMap TraceLine.events

theorem eventsOf_events (t : TraceLine) (ip : ADDRINT) :
    everywhere.eventsOf t.events ip = if t.pc = ip then t.events else [] := by
  have hpc : ∀ e ∈ t.events, e.ip = t.pc := by
    intro e he
    obtain ⟨outcome, -, rfl⟩ := List.mem_map.mp he
    rfl
  simp only [Range.eventsOf, everywhere_key, Option.some_inj]
  split
  · next heq => exact List.filter_eq_self.mpr fun e he => by simp [hpc e he, heq]
  · next hne => exact List.filter_eq_nil_iff.mpr fun e he => by simp [hpc e he, hne]

section

variable (range : Range) (es : List Event)

/-- A branch's events in a trace are those of its line. -/
theorem eventsOf_flatMap {ips : List ADDRINT} (hips : ips.Nodup) (ip : ADDRINT) :
    everywhere.eventsOf ((ips.map (range.line es)).flatMap TraceLine.events) ip =
      if ip ∈ ips then (range.line es ip).events else [] := by
  induction ips with
  | nil => rfl
  | cons ip' ips ih =>
      obtain ⟨hnotin, hips⟩ := List.nodup_cons.mp hips
      rw [List.map_cons, List.flatMap_cons, Range.eventsOf, List.filter_append, ← Range.eventsOf,
        ← Range.eventsOf, ih hips, eventsOf_events]
      by_cases heq : ip' = ip
      · subst heq
        simp [hnotin, Range.line]
      · simp [heq, Ne.symm heq, Range.line]

/-- Replayed, a branch has the line that it had. -/
theorem line_replayed (ip : ADDRINT) :
    everywhere.line ((traceLines (MyBranch.run range es {}).history).flatMap TraceLine.events) ip =
      range.line es ip := by
  have hevents := eventsOf_flatMap range es (MyBranch.run range es {}).history.nodup_keys ip
  rw [← traceLines_run] at hevents
  simp only [mem_keys_history] at hevents
  rw [Range.line, Range.outcomes, hevents]
  by_cases hne : range.outcomes es ip = []
  · have hnil : range.eventsOf es ip = [] := List.map_eq_nil_iff.mp hne
    rw [if_neg (not_not.mpr hne), Range.line, hne, hnil]
    rfl
  · have houtcomes : (range.line es ip).events.map Event.isTaken = range.outcomes es ip := by
      rw [TraceLine.events, List.map_map]
      exact List.map_id _
    have hlast : (range.line es ip).events.getLast?.elim 0 Event.target =
        (range.line es ip).target := by
      rw [TraceLine.events, List.getLast?_map, Range.line, List.getLast?_eq_some_getLast hne]
      rfl
    rw [if_pos hne, houtcomes, hlast]
    rfl

end

namespace MyBranch

/-- What a state of `MyBranch` reports, beside its trace. -/
structure SameBooks (s s' : State) : Prop where
  total : s.total = s'.total
  taken : s.taken = s'.taken
  nottaken : s.nottaken = s'.nottaken
  predictions : s.predictions = s'.predictions
  correct : s.correct = s'.correct
  pred2 : s.pred2 = s'.pred2
  correct2 : s.correct2 = s'.correct2
  predH : s.predH = s'.predH
  correctH : s.correctH = s'.correctH
  mispredBranch : s.mispredBranch = s'.mispredBranch

section

variable {range range' : Range} {es es' : List Event}

/-- The books are a function of the outcome strings. -/
theorem sameBooks_run (h : ∀ ip, range.outcomes es ip = range'.outcomes es' ip) :
    SameBooks (run range es {}) (run range' es' {}) := by
  have hbranches : range.branches es = range'.branches es' := by
    ext ip
    rw [range.mem_branches_iff_outcomes, range'.mem_branches_iff_outcomes, h]
  have htotal : (run range es {}).total = (run range' es' {}).total := by
    simp only [total_run, hbranches, h]
  obtain ⟨hpredictions, hpred2, hpredH⟩ := predictions_run range es
  obtain ⟨hpredictions', hpred2', hpredH'⟩ := predictions_run range' es'
  have h1 := miss1_run range es
  have h2 := miss2_run range es
  have hH := missH_run range es
  have h1' := miss1_run range' es'
  have h2' := miss2_run range' es'
  have hH' := missH_run range' es'
  simp only [hbranches, h] at h1 h2 hH
  exact
    { total := htotal
      taken := by simp only [taken_run, hbranches, h]
      nottaken := by simp only [nottaken_run, hbranches, h]
      predictions := by omega
      correct := by omega
      pred2 := by omega
      correct2 := by omega
      predH := by omega
      correctH := by omega
      mispredBranch := by
        apply Std.ExtTreeMap.ext_getElem?
        intro ip
        rw [mispredBranch_run, mispredBranch_run, h] }

/-- The report is a function of the lines. -/
theorem report_congr (h : ∀ ip, range.line es ip = range'.line es' ip) :
    report (run range es {}) = report (run range' es' {}) := by
  have houtcomes : ∀ ip, range.outcomes es ip = range'.outcomes es' ip := fun ip =>
    congrArg TraceLine.outcomes (h ip)
  have hbooks := sameBooks_run houtcomes
  have hkeys : (run range es {}).history.keys = (run range' es' {}).history.keys := by
    apply (pairwise_keys_history range es).eq_of_mem_iff (pairwise_keys_history range' es')
    intro ip
    rw [mem_keys_history, mem_keys_history, houtcomes]
  have htraces : traceLines (run range es {}).history = traceLines (run range' es' {}).history := by
    rw [traceLines_run, traceLines_run, hkeys, funext h]
  rw [report_eq (lettered_run range es), report_eq (lettered_run range' es'), htraces, tail, tail,
    hbooks.total, hbooks.taken, hbooks.nottaken, hbooks.predictions, hbooks.correct,
    hbooks.pred2, hbooks.correct2, hbooks.predH, hbooks.correctH]

end

/-- The result file is a function of the books. -/
theorem SameBooks.fini {s s' : State} (h : SameBooks s s') (showDouble : Double → List Char) :
    fini showDouble s = MyBranch.fini showDouble s' := by
  unfold MyBranch.fini
  rw [h.total, h.predictions, h.correct, h.pred2, h.correct2, h.predH, h.correctH, h.mispredBranch]

end MyBranch

/-- **A report is enough to replay the run.**  Whichever of the two reports its
trace is taken from, fed to `MyBranch` one branch after the other it gives the
report and the result file of the run again. -/
theorem report_replays (range : Range) (es : List Event) :
    let a := MyBranch.run range es {}
    let b := MyTage.run range es {}
    ∃ log log' : Log, readLog MyBranch.layout (MyBranch.report a) = some log ∧
      readLog MyTage.layout (MyTage.report b) = some log' ∧
      ∀ replayed ∈ [log.events, log'.events],
        let a' := MyBranch.run everywhere replayed {}
        MyBranch.report a' = MyBranch.report a ∧
          ∀ showDouble, MyBranch.fini showDouble a' = MyBranch.fini showDouble a := by
  intro a b
  have hline := line_replayed range es
  have hreplayed : ∀ replayed ∈ [(MyBranch.log a).events, (MyTage.log b).events],
      replayed = (traceLines a.history).flatMap TraceLine.events := by
    rw [List.forall_mem_cons, List.forall_mem_singleton, Log.events, Log.events]
    exact ⟨rfl, congrArg (fun history => (traceLines history).flatMap TraceLine.events)
      (history_run_eq range es)⟩
  refine ⟨_, _, MyBranch.readLog_report (lettered_run range es),
    MyTage.readLog_report lettered_myTage, ?_⟩
  intro replayed hmem
  rw [hreplayed replayed hmem]
  constructor
  · exact MyBranch.report_congr hline
  · exact (MyBranch.sameBooks_run fun ip => congrArg TraceLine.outcomes (hline ip)).fini

end BranchPrediction
