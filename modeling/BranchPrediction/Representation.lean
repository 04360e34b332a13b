import BranchPrediction.MyBranch.LoopCost
import BranchPrediction.MyTage.Context
import BranchPrediction.MyTage.Writes

/-!
# What the tables hold

The tables of either tool are only meaningful together: a branch has an entry in
all of those that are written at every event or in none, its trace ends in the
outcome the 1-bit table holds, and the bytes stay in the ranges the comments of
the source give.  `Represented` collects these facts for a state of a tool.

All but one of them hold after every stream.  The mispredictions of a branch are
counted in an `int`, where every other count is a `UINT64`, and the positive
numbers of an `int` end at `2 ^ 31 - 1` (`represented_iff`).
-/

namespace BranchPrediction

open Automata Cpp

/-- Two values a byte takes one after the other, moved by a step at most.  A byte
that wraps moves by 255. -/
def Adjacent (v v' : ℤ) : Prop :=
  v' ≤ v + 1 ∧ v ≤ v' + 1

theorem Adjacent.refl (v : ℤ) : Adjacent v v := by
  constructor <;> omega

theorem adjacent_train {lo hi : ℤ} (k : SatCounter lo hi) (outcome : Bool) :
    Adjacent k.val (k.train outcome).val := by
  have := k.lo_le
  have := k.le_hi
  rw [Adjacent, SatCounter.val_train]
  split <;> omega

/-! ## `MyBranch` -/

namespace MyBranch

/-- The tables of `MyBranch` fit together. -/
structure Represented (range : Range) (s : State) : Prop where
  keys_bht2 : ∀ ip : ADDRINT, s.bht2.contains ip = s.bht.contains ip
  keys_selector : ∀ ip : ADDRINT, s.selector.contains ip = s.bht.contains ip
  keys_history : ∀ ip : ADDRINT, s.history.contains ip = s.bht.contains ip
  /-- `traces.back()` is there for `Fini` to print, and is the outcome in `BHT`. -/
  back : ∀ (ip : ADDRINT) traces, s.history[ip]? = some traces → ∃ bt b, traces.getLast? = some bt ∧
    s.bht[ip]? = some b ∧ bt.outcome = if b then 'T' else 'N'
  bht2_le : ∀ (ip : ADDRINT) state, s.bht2[ip]? = some state → state.toNat ≤ 3
  selector_le : ∀ (ip : ADDRINT) sel, s.selector[ip]? = some sel → sel.toNat ≤ 3
  mispredBranch : ∀ (ip : ADDRINT) n, s.mispredBranch[ip]? = some n →
    ∃ traces, s.history[ip]? = some traces ∧ 0 < n.toInt ∧ n.toInt ≤ traces.length
  adjacent_bht2 : ∀ e (ip : ADDRINT),
    Adjacent (s.bht2[ip]?.getD 2).toNat ((step range s e).bht2[ip]?.getD 2).toNat
  adjacent_selector : ∀ e (ip : ADDRINT),
    Adjacent (s.selector[ip]?.getD 2).toNat ((step range s e).selector[ip]?.getD 2).toNat

theorem eq_of_recorded {l : List Event} {traces : List BranchTrace}
    (h : recorded l = some traces) : l ≠ [] ∧ l.map Event.trace = traces := by
  unfold recorded at h
  split at h
  · cases h
  · next hne => exact ⟨hne, Option.some.inj h⟩

theorem isSome_recorded (l : List Event) :
    (recorded l).isSome = (l.map Event.isTaken).getLast?.isSome := by
  cases l with
  | nil => rfl
  | cons e l => simp [recorded]

/-- A trace ends in the last outcome. -/
theorem getLast?_trace {l : List Event} (hl : l ≠ []) :
    ∃ bt b, (l.map Event.trace).getLast? = some bt ∧ (l.map Event.isTaken).getLast? = some b ∧
      bt.outcome = if b then 'T' else 'N' := by
  refine ⟨(l.getLast hl).trace, (l.getLast hl).isTaken, ?_, ?_, rfl⟩
  · rw [List.getLast?_map, List.getLast?_eq_some_getLast hl, Option.map_some]
  · rw [List.getLast?_map, List.getLast?_eq_some_getLast hl, Option.map_some]

/-- An entry of `mispredBranch` is positive as long as its count fits. -/
theorem toInt_of_counted {n : ℕ} (hn : n < 2 ^ 31) {v : Int32} (h : counted n = some v) :
    0 < v.toInt ∧ v.toInt = n := by
  have hv := toInt_counted hn
  rw [h, Option.getD_some] at hv
  have hne : n ≠ 0 := by
    rintro rfl
    cases h
  omega

/-- The bytes of tracked entries move with the replay, which takes single steps. -/
theorem Tracks.adjacent {c : Slice} {r : Replay} (h : Tracks c r) (e : Event) :
    Adjacent (c.bht2.getD 2).toNat ((c.record e).bht2.getD 2).toNat ∧
      Adjacent (c.selector.getD 2).toNat ((c.record e).selector.getD 2).toNat := by
  have hnext := h.record e
  rw [h.bht2, h.selector, hnext.bht2, hnext.selector]
  constructor
  · exact adjacent_train r.two e.isTaken
  · unfold Replay.step
    dsimp only
    split
    · exact Adjacent.refl _
    · split
      · exact Adjacent.refl _
      · exact adjacent_train r.chooser _

theorem adjacent_step (range : Range) (es : List Event) (e : Event) (ip : ADDRINT) :
    let c := slice (run range es {}) ip
    let c' := slice (step range (run range es {}) e) ip
    Adjacent (c.bht2.getD 2).toNat (c'.bht2.getD 2).toNat ∧
      Adjacent (c.selector.getD 2).toNat (c'.selector.getD 2).toNat := by
  dsimp only
  rw [slice_step]
  split
  · exact (tracks_run range es ip).adjacent e
  · exact ⟨Adjacent.refl _, Adjacent.refl _⟩

section

variable (range : Range) (es : List Event) (ip : ADDRINT)

theorem bht_run : (run range es {}).bht[ip]? = (range.outcomes es ip).getLast? :=
  (tracks_run range es ip).bht.trans (Replay.last_after _)

/-- Where the 1-bit table has an entry the others have one. -/
theorem keys_run : (run range es {}).bht2[ip]?.isSome = (run range es {}).bht[ip]?.isSome ∧
    (run range es {}).selector[ip]?.isSome = (run range es {}).bht[ip]?.isSome ∧
    (run range es {}).history[ip]?.isSome = (run range es {}).bht[ip]?.isSome := by
  have htracks := tracks_run range es ip
  have hlast := Replay.last_after (range.outcomes es ip)
  rw [bht_run, history_run, ← hlast]
  refine ⟨htracks.bht2_isSome, htracks.selector_isSome, ?_⟩
  rw [hlast]
  exact isSome_recorded _

/-- Both bytes of a branch are those of its replay. -/
theorem bytes_run_le : ((run range es {}).bht2[ip]?.getD 2).toNat ≤ 3 ∧
    ((run range es {}).selector[ip]?.getD 2).toNat ≤ 3 := by
  have htracks := tracks_run range es ip
  have htwo : (((run range es {}).bht2[ip]?.getD 2).toNat : ℤ) = _ := htracks.bht2
  have hchooser : (((run range es {}).selector[ip]?.getD 2).toNat : ℤ) = _ := htracks.selector
  have := (Replay.after (range.outcomes es ip)).two.le_hi
  have := (Replay.after (range.outcomes es ip)).chooser.le_hi
  omega

variable {range es ip}

/-- A branch with an entry in `mispredBranch` has a trace, no shorter than the
entry is large. -/
theorem mispredBranch_le_length (hmisses : chooserMisses (range.outcomes es ip) < 2 ^ 31)
    {n : Int32} (hn : (run range es {}).mispredBranch[ip]? = some n) :
    ∃ traces, (run range es {}).history[ip]? = some traces ∧ 0 < n.toInt ∧
      n.toInt ≤ traces.length := by
  rw [mispredBranch_run] at hn
  obtain ⟨hpos, heq⟩ := toInt_of_counted hmisses hn
  have hle := chooserMisses_le (range.outcomes es ip)
  rw [Range.outcomes, List.length_map] at hle
  have hne : range.eventsOf es ip ≠ [] := by
    intro hnil
    rw [hnil, List.length_nil] at hle
    rw [Range.outcomes, hnil] at heq
    omega
  refine ⟨(range.eventsOf es ip).map Event.trace, ?_, hpos, ?_⟩
  · rw [history_run, recorded, if_neg hne]
  · rw [heq, List.length_map]
    exact Int.ofNat_le.mpr hle

end

theorem represented_run {range : Range} {es : List Event}
    (hmisses : ∀ ip, chooserMisses (range.outcomes es ip) < 2 ^ 31) :
    Represented range (run range es {}) := by
  have hkeys := keys_run range es
  have hbytes := bytes_run_le range es
  exact
    { keys_bht2 := by
        intro ip
        rw [Map.contains_eq_isSome, Map.contains_eq_isSome, (hkeys ip).1]
      keys_selector := by
        intro ip
        rw [Map.contains_eq_isSome, Map.contains_eq_isSome, (hkeys ip).2.1]
      keys_history := by
        intro ip
        rw [Map.contains_eq_isSome, Map.contains_eq_isSome, (hkeys ip).2.2]
      back := by
        intro ip traces htraces
        rw [history_run] at htraces
        obtain ⟨hne, rfl⟩ := eq_of_recorded htraces
        rw [bht_run]
        exact getLast?_trace hne
      bht2_le := by
        intro ip state hstate
        have hle := (hbytes ip).1
        rwa [hstate] at hle
      selector_le := by
        intro ip sel hsel
        have hle := (hbytes ip).2
        rwa [hsel] at hle
      mispredBranch := fun ip _ hn => mispredBranch_le_length (hmisses ip) hn
      adjacent_bht2 := fun e ip => (adjacent_step range es e ip).1
      adjacent_selector := fun e ip => (adjacent_step range es e ip).2 }

/-- A branch mispredicted `2 ^ 31` times has a negative entry. -/
theorem not_represented_of_misses {range : Range} {es : List Event} (ip : ADDRINT)
    (hmisses : chooserMisses (range.outcomes es ip) = 2 ^ 31) :
    ¬ Represented range (run range es {}) := by
  intro h
  have hentry := mispredBranch_run range es ip
  rw [hmisses] at hentry
  have hwrapped : counted (2 ^ 31) = some (-2147483648) := by decide
  obtain ⟨-, -, hpos, -⟩ := h.mispredBranch ip _ (hentry.trans hwrapped)
  exact absurd hpos (by decide)

theorem chooserMisses_concat_le (range : Range) (ip : ADDRINT) (es : List Event) (e : Event) :
    chooserMisses (range.outcomes (es ++ [e]) ip) ≤ chooserMisses (range.outcomes es ip) + 1 := by
  have hlast : (range.outcomes [e] ip).length ≤ 1 :=
    (List.length_map _).trans_le (List.length_filter_le _ [e])
  have hmiss := runCost_le_length Replay.step (miss id Replay.chosen) (miss_le_one _ _)
    (Replay.after (range.outcomes es ip)) (range.outcomes [e] ip)
  rw [range.outcomes_append, chooserMisses, runCost_append]
  exact Nat.add_le_add_left (hmiss.trans hlast) _

end MyBranch

/-! ## `MyTage` -/

namespace MyTage

/-- The tables of `MyTage` fit together. -/
structure Represented (range : Range) (s : State) : Prop where
  t0_le : ∀ (ip : ADDRINT) base, s.t0[ip]? = some base → base.toNat ≤ 3
  keys_history : ∀ ip : ADDRINT, s.history.contains ip = s.t0.contains ip
  ghr_lt : s.ghr.toNat < 2 ^ 16
  entries : ∀ p, (s.deref p).Valid
  adjacent_t0 : ∀ e (ip : ADDRINT),
    Adjacent (s.t0[ip]?.getD 2).toNat ((step range s e).t0[ip]?.getD 2).toNat
  adjacent_counter : ∀ ip actual p,
    Adjacent (s.deref p).counter.toInt ((s.updated ip actual).deref p).counter.toInt
  adjacent_u : ∀ ip actual p,
    Adjacent (s.deref p).u.toNat ((s.updated ip actual).deref p).u.toNat

/-- A branch has a base counter once it has a trace. -/
theorem keys_run (range : Range) (es : List Event) (ip : ADDRINT) :
    (run range es {}).history[ip]?.isSome = (run range es {}).t0[ip]?.isSome := by
  induction es using List.reverseRecOn with
  | nil => simp [run]
  | append_singleton es e ih =>
      rw [run_concat]
      change (slice (step range _ e) ip).history.isSome = (slice (step range _ e) ip).t0.isSome
      by_cases he : range.Contains e.ip
      · rw [slice_step_of_contains he]
        split
        · rfl
        · exact ih
      · rw [step_of_not_contains he]
        exact ih

/-- The training of the provider moves each byte of an entry by a step at most. -/
theorem adjacent_updated {s : State} (hs : s.Valid) (ip : ADDRINT) (actual : Bool) (p : Pointer) :
    Adjacent (s.deref p).counter.toInt ((s.updated ip actual).deref p).counter.toInt ∧
      Adjacent (s.deref p).u.toNat ((s.updated ip actual).deref p).u.toNat := by
  rw [deref_updated]
  split
  · have hentry := hs.deref p
    have := hentry.le_counter
    have := hentry.counter_le
    have := hentry.u_le
    rw [TageEntry.toInt_updateEntry hentry, TageEntry.toNat_updateEntry hentry]
    constructor
    · unfold Adjacent
      split <;> omega
    · unfold Adjacent
      split <;> omega
  · exact ⟨Adjacent.refl _, Adjacent.refl _⟩

theorem adjacent_t0 {range : Range} {s : State} (hs : s.Valid) (e : Event) (ip : ADDRINT) :
    Adjacent (s.t0[ip]?.getD 2).toNat ((step range s e).t0[ip]?.getD 2).toNat := by
  by_cases he : range.Contains e.ip
  · rw [getD_t0_step he]
    split
    · have hbase := hs.t0 ip
      rw [MyBranch.toNat_bump hbase]
      unfold Adjacent
      split <;> omega
    · exact Adjacent.refl _
  · rw [step_of_not_contains he]
    exact Adjacent.refl _

theorem represented_run (range : Range) (es : List Event) :
    Represented range (run range es {}) := by
  have hvalid := valid_run range es
  exact
    { t0_le := by
        intro ip base hbase
        have hle := hvalid.t0 ip
        rwa [hbase] at hle
      keys_history := by
        intro ip
        rw [Map.contains_eq_isSome, Map.contains_eq_isSome, keys_run]
      ghr_lt := by
        rw [toNat_ghr_run]
        exact register_lt 16 _
      entries := hvalid.deref
      adjacent_t0 := adjacent_t0 hvalid
      adjacent_counter := fun ip actual p => (adjacent_updated hvalid ip actual p).1
      adjacent_u := fun ip actual p => (adjacent_updated hvalid ip actual p).2 }

end MyTage

/-! ## Both tools -/

/-- **The tables fit together** in every state a stream passes through exactly if
no branch is mispredicted by the hybrid `2 ^ 31` times in it.  `MyTage` takes no
part in the condition. -/
theorem represented_iff (range : Range) (es : List Event) :
    (∀ past, past <+: es → MyBranch.Represented range (MyBranch.run range past {}) ∧
      MyTage.Represented range (MyTage.run range past {})) ↔
      ∀ ip, MyBranch.chooserMisses (range.outcomes es ip) < 2 ^ 31 := by
  constructor
  · intro hpast ip
    by_contra hmany
    obtain ⟨past, hbefore, hmisses⟩ := exists_prefix_of_le
      (fun es => MyBranch.chooserMisses (range.outcomes es ip)) rfl
      (MyBranch.chooserMisses_concat_le range ip) (Nat.not_lt.mp hmany)
    exact MyBranch.not_represented_of_misses ip hmisses (hpast past hbefore).1
  · intro hmisses past hbefore
    refine ⟨MyBranch.represented_run fun ip => ?_, MyTage.represented_run range past⟩
    obtain ⟨future, rfl⟩ := hbefore
    have hle := hmisses ip
    rw [range.outcomes_append, MyBranch.chooserMisses, runCost_append] at hle
    exact (Nat.le_add_right _ _).trans_lt hle

/-- A branch not taken and taken in turn, `2 ^ 30` times. -/
def alternatingStream : List Event :=
  (Automata.loops false 1 (2 ^ 30)).map fun b => ⟨4, 5, b⟩

theorem chooserMisses_alternating (m : ℕ) :
    MyBranch.chooserMisses (Automata.loops false 1 m) = 2 * m := by
  cases m with
  | zero => rfl
  | succ m => exact congrArg (fun c => c.2.2) (MyBranch.Replay.costs_loops_alternating m)

/-- Mispredicted every time, the branch has a negative count in the end. -/
theorem alternating_not_represented :
    ¬ (MyBranch.Represented ⟨1, 9⟩ (MyBranch.run ⟨1, 9⟩ alternatingStream {}) ∧
      MyTage.Represented ⟨1, 9⟩ (MyTage.run ⟨1, 9⟩ alternatingStream {})) := by
  intro h
  apply MyBranch.not_represented_of_misses 4 _ h.1
  rw [alternatingStream, Range.outcomes_map _ (by decide), chooserMisses_alternating,
    ← Nat.pow_succ']

end BranchPrediction
