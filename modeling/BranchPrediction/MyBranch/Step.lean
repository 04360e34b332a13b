import BranchPrediction.Automata.Sharded
import BranchPrediction.MyBranch.Model

/-!
# One event of `MyBranch`

`RecordBranch` reads and writes the map entries of its own branch only, and every
global counter moves by an amount those entries decide.  `slice_step` and the
counter lemmas after it say so once; nothing later unfolds `recordBranch`.

`machine` packages them: the tool is sharded by branch address, so by
`Automata.Sharded` its runs are products of per-branch runs.
-/

namespace BranchPrediction.MyBranch

open Cpp Automata

/-! ## One branch -/

/-- The part of the state that belongs to one branch: its map entries. -/
@[ext]
structure Slice where
  bht : Option Bool
  bht2 : Option UInt8
  selector : Option UInt8
  history : Option (List BranchTrace)
  mispred : Option Int32
deriving DecidableEq

/-- The entries of one branch. -/
def slice (s : State) (ip : ADDRINT) : Slice :=
  ⟨s.bht[ip]?, s.bht2[ip]?, s.selector[ip]?, s.history[ip]?, s.mispredBranch[ip]?⟩

namespace Slice

/-- The 1-bit prediction: on a first execution it is the outcome itself. -/
def pred1 (c : Slice) (actual : Bool) : Bool :=
  c.bht.getD actual

/-- The 2-bit prediction. -/
def pred2Val (c : Slice) : Bool :=
  decide (c.bht2.getD 2 ≥ 2)

/-- The hybrid prediction. -/
def finalPred (c : Slice) (actual : Bool) : Bool :=
  if c.selector.getD 2 ≤ 1 then c.pred1 actual else c.pred2Val

end Slice

/-- The step of a selector held in a `UINT8`. -/
def moveSelector (pred1Valid pred2Valid pred1 pred2Val actual : Bool) (sel : UInt8) : UInt8 :=
  if pred1Valid && pred2Valid && pred1 != pred2Val then
    if pred2Val = actual ∧ sel < 3 then sel + 1
    else if pred1 = actual ∧ sel > 0 then sel - 1
    else sel
  else sel

/-- The saturating step of a 2-bit counter held in a `UINT8`. -/
def bump (actual : Bool) (state : UInt8) : UInt8 :=
  if actual then if state < 3 then state + 1 else state
  else if state > 0 then state - 1 else state

/-- No `UINT8` wraps: a counter in 0..3 stays there. -/
theorem toNat_bump {s : UInt8} (hs : s.toNat ≤ 3) (outcome : Bool) :
    (bump outcome s).toNat = if outcome then min (s.toNat + 1) 3 else s.toNat - 1 := by
  have hlt : s < 3 ↔ s.toNat < 3 := UInt8.lt_iff_toNat_lt
  have hpos : s > 0 ↔ 0 < s.toNat := UInt8.lt_iff_toNat_lt
  unfold bump
  cases outcome with
  | true =>
      simp only [if_true, hlt]
      split
      · rw [UInt8.toNat_add, UInt8.toNat_one]
        omega
      · omega
  | false =>
      simp only [Bool.false_eq_true, if_false, hpos]
      split
      · next hs0 => rw [UInt8.toNat_sub_of_le s 1 (UInt8.le_iff_toNat_le.mpr hs0), UInt8.toNat_one]
      · omega

/-- What `RecordBranch` does to the entries of its branch. -/
def Slice.record (c : Slice) (e : Event) : Slice where
  bht := some e.isTaken
  bht2 := some (bump e.isTaken (c.bht2.getD 2))
  selector := some (moveSelector c.bht.isSome c.bht2.isSome (c.pred1 e.isTaken) c.pred2Val
    e.isTaken (c.selector.getD 2))
  history := some (c.history.getD [] ++ [e.trace])
  mispred := if c.finalPred e.isTaken = e.isTaken then c.mispred else some (c.mispred.getD 0 + 1)

/-! ### What `recordBranch` reads -/

theorem pred1_eq (s : State) (ip : ADDRINT) (actual : Bool) :
    s.pred1 ip actual = (slice s ip).pred1 actual :=
  s.bht.ite_read ip actual

theorem pred2Val_eq (s : State) (ip : ADDRINT) : s.pred2Val ip = (slice s ip).pred2Val := by
  unfold State.pred2Val State.state2
  rw [s.bht2.ite_read ip 2]
  rfl

theorem finalPred_eq (s : State) (ip : ADDRINT) (actual : Bool) :
    s.finalPred ip actual = (slice s ip).finalPred actual := by
  unfold State.finalPred State.selectorWith
  rw [s.selector.read_ite_insert ip 2, pred1_eq, pred2Val_eq]
  rfl

/-! ### The tables after an event -/

theorem getElem?_updateBht2 (m : Map ADDRINT UInt8) (ip a : ADDRINT) (actual : Bool) :
    (updateBht2 m ip (m.contains ip) actual)[a]? =
      if ip = a then some (bump actual (m[ip]?.getD 2)) else m[a]? := by
  have hip := m.getElem?_ite_insert ip ip 2
  rw [if_pos rfl] at hip
  unfold updateBht2 bump
  cases actual <;>
    simp only [Bool.false_eq_true, if_true, if_false, m.read_ite_insert,
      Map.getElem?_ite_update hip, m.getElem?_ite_insert] <;>
    split <;> rfl

theorem getElem?_updateSelector {m : Map ADDRINT UInt8} {ip : ADDRINT} {sel : UInt8}
    (hip : m[ip]? = some sel) (a : ADDRINT) (pred1Valid pred2Valid pred1 pred2Val actual : Bool) :
    (updateSelector m ip pred1Valid pred2Valid pred1 pred2Val actual)[a]? =
      if ip = a then some (moveSelector pred1Valid pred2Valid pred1 pred2Val actual sel)
      else m[a]? := by
  unfold updateSelector moveSelector
  rw [Map.read_of_some hip]
  by_cases ha : ip = a
  · rw [if_pos ha, ← ha]
    split_ifs <;> simp [Map.getElem?_update, hip]
  · rw [if_neg ha]
    split_ifs <;> simp [Map.getElem?_update, ha]

theorem getElem?_selectorWith (s : State) (ip a : ADDRINT) :
    (s.selectorWith ip)[a]? = if ip = a then some (s.selector[ip]?.getD 2) else s.selector[a]? :=
  s.selector.getElem?_ite_insert ip a 2

theorem getElem?_mispredBranch (m : Map ADDRINT Int32) (ip a : ADDRINT) (p : Prop) [Decidable p] :
    (if ¬ p then m.update ip (· + 1) else m)[a]? =
      if ip = a then if p then m[ip]? else some (m[ip]?.getD 0 + 1) else m[a]? := by
  by_cases ha : ip = a
  · subst ha
    by_cases hp : p
    · rw [if_neg (not_not.mpr hp), if_pos rfl, if_pos hp]
    · rw [if_pos hp, if_pos rfl, if_neg hp, Map.getElem?_update, if_pos rfl]
      rfl
  · rw [if_neg ha]
    split
    · rw [Map.getElem?_update, if_neg ha]
    · rfl

/-- **The frame of an event.**  It moves the entries of its branch, and no other. -/
theorem slice_step_of_contains {range : Range} {e : Event} (h : range.Contains e.ip) (s : State)
    (ip : ADDRINT) :
    slice (step range s e) ip =
      if e.ip = ip then (slice s ip).record e else slice s ip := by
  have hselector := getElem?_updateSelector ((getElem?_selectorWith s e.ip e.ip).trans (if_pos rfl))
    ip (s.bht.contains e.ip) (s.bht2.contains e.ip) (s.pred1 e.ip e.isTaken) (s.pred2Val e.ip)
    e.isTaken
  have hbht2 := getElem?_updateBht2 s.bht2 e.ip ip e.isTaken
  have hmispred := getElem?_mispredBranch s.mispredBranch e.ip ip
    (s.finalPred e.ip e.isTaken = e.isTaken)
  rw [getElem?_selectorWith] at hselector
  rw [range.contains_iff_not_skipped] at h
  unfold step recordBranch
  rw [if_neg h]
  dsimp only
  rw [Map.ite_touch, Map.ite_touch]
  by_cases hip : e.ip = ip
  · subst hip
    rw [if_pos rfl] at hselector hbht2 hmispred ⊢
    ext1
    · exact (Map.getElem?_insert_eq ..).trans (if_pos rfl)
    · exact hbht2
    · apply hselector.trans
      rw [pred1_eq, pred2Val_eq, Map.contains_eq_isSome, Map.contains_eq_isSome]
      rfl
    · exact (Map.getElem?_update ..).trans (if_pos rfl)
    · apply hmispred.trans
      rw [finalPred_eq]
      rfl
  · rw [if_neg hip] at hselector hbht2 hmispred ⊢
    ext1
    · exact (Map.getElem?_insert_eq ..).trans (if_neg hip)
    · exact hbht2
    · exact hselector.trans (if_neg hip)
    · exact (Map.getElem?_update ..).trans (if_neg hip)
    · exact hmispred

theorem slice_step (range : Range) (s : State) (e : Event) (ip : ADDRINT) :
    slice (step range s e) ip =
      if range.key e = some ip then (slice s ip).record e else slice s ip := by
  by_cases h : range.Contains e.ip
  · simp only [slice_step_of_contains h, range.key_of_contains h, Option.some.injEq]
  · simp [step_of_not_contains h, range.key_of_not_contains h]

/-- The tool is sharded by branch address. -/
def machine (range : Range) : Sharded State Event ADDRINT Slice where
  step := step range
  key := range.key
  slice := slice
  act := Slice.record
  slice_step := slice_step range

/-- The entries of a branch after a run: its own events replayed on them. -/
theorem slice_run (range : Range) (es : List Event) (s : State) (ip : ADDRINT) :
    slice (run range es s) ip = (range.eventsOf es ip).foldl Slice.record (slice s ip) :=
  (machine range).slice_run es s ip

/-- A counter whose steps are decided by the entries of the event's branch adds
up over the branches touched. -/
theorem counter_run {range : Range} {q : State → ℕ} {c : Slice → Event → ℕ}
    (hq : ∀ s e, range.Contains e.ip → q (step range s e) = q s + c (slice s e.ip) e)
    (es : List Event) (s : State) :
    q (run range es s) = q s +
      ∑ ip ∈ range.branches es, runCost Slice.record c (slice s ip) (range.eventsOf es ip) := by
  apply (machine range).counter_run
  intro s e
  by_cases h : range.Contains e.ip
  · rw [(machine range).charge_of_key (range.key_of_contains h)]
    exact hq s e h
  · rw [(machine range).charge_of_none (range.key_of_not_contains h)]
    exact congrArg q (step_of_not_contains h s)

/-! ### The counters after an event -/

section

variable {range : Range} {e : Event} (h : range.Contains e.ip) (s : State)
include h

theorem correct_step : (step range s e).correct =
    s.correct + if (slice s e.ip).pred1 e.isTaken = e.isTaken then 1 else 0 := by
  rw [range.contains_iff_not_skipped] at h
  unfold step recordBranch
  rw [if_neg h]
  dsimp only
  rw [pred1_eq]
  split <;> rfl

theorem correct2_step : (step range s e).correct2 =
    s.correct2 + if (slice s e.ip).pred2Val = e.isTaken then 1 else 0 := by
  rw [range.contains_iff_not_skipped] at h
  unfold step recordBranch
  rw [if_neg h]
  dsimp only
  rw [pred2Val_eq]
  split <;> rfl

theorem correctH_step : (step range s e).correctH =
    s.correctH + if (slice s e.ip).finalPred e.isTaken = e.isTaken then 1 else 0 := by
  rw [range.contains_iff_not_skipped] at h
  unfold step recordBranch
  rw [if_neg h]
  dsimp only
  rw [finalPred_eq]
  split <;> rfl

theorem counters_step :
    (step range s e).total = s.total + 1 ∧
      (step range s e).predictions = s.predictions + 1 ∧
      (step range s e).pred2 = s.pred2 + 1 ∧
      (step range s e).predH = s.predH + 1 ∧
      (step range s e).taken = s.taken + (if e.isTaken then 1 else 0) ∧
      (step range s e).nottaken = s.nottaken + if e.isTaken then 0 else 1 := by
  rw [range.contains_iff_not_skipped] at h
  simp only [step, recordBranch, if_neg h, true_and]
  cases e.isTaken <;> exact ⟨rfl, rfl⟩

end

/-! ### Scores

A predictor is scored by two counters, the predictions made and those that were
right.  Their difference is what its wrong predictions add up to. -/

/-- The charge for a wrong prediction read off the entries of a branch. -/
def wrong (pred : Slice → Bool → Bool) (c : Slice) (e : Event) : ℕ :=
  if pred c e.isTaken = e.isTaken then 0 else 1

theorem scored_run {range : Range} {made right : State → ℕ} {pred : Slice → Bool → Bool}
    (hmade : ∀ s e, range.Contains e.ip → made (step range s e) = made s + 1)
    (hright : ∀ s e, range.Contains e.ip → right (step range s e) =
      right s + if pred (slice s e.ip) e.isTaken = e.isTaken then 1 else 0)
    (es : List Event) (s : State) :
    made (run range es s) + right s = made s + right (run range es s) +
      ∑ ip ∈ range.branches es,
        runCost Slice.record (wrong pred) (slice s ip) (range.eventsOf es ip) := by
  have hm := counter_run (c := fun c e => (if pred c e.isTaken = e.isTaken then 1 else 0) +
    wrong pred c e) (fun s e h => (hmade s e h).trans (by unfold wrong; split <;> rfl)) es s
  have hr := counter_run (c := fun c e => if pred c e.isTaken = e.isTaken then 1 else 0)
    hright es s
  simp only [runCost_add, Finset.sum_add_distrib] at hm
  omega

theorem scored1_run (range : Range) (es : List Event) (s : State) :
    (run range es s).predictions + s.correct = s.predictions + (run range es s).correct +
      ∑ ip ∈ range.branches es,
        runCost Slice.record (wrong Slice.pred1) (slice s ip) (range.eventsOf es ip) :=
  scored_run (fun s _ h => (counters_step h s).2.1) (fun s _ h => correct_step h s) es s

theorem scored2_run (range : Range) (es : List Event) (s : State) :
    (run range es s).pred2 + s.correct2 = s.pred2 + (run range es s).correct2 +
      ∑ ip ∈ range.branches es,
        runCost Slice.record (wrong fun c _ => c.pred2Val) (slice s ip) (range.eventsOf es ip) :=
  scored_run (fun s _ h => (counters_step h s).2.2.1) (fun s _ h => correct2_step h s) es s

theorem scoredH_run (range : Range) (es : List Event) (s : State) :
    (run range es s).predH + s.correctH = s.predH + (run range es s).correctH +
      ∑ ip ∈ range.branches es,
        runCost Slice.record (wrong Slice.finalPred) (slice s ip) (range.eventsOf es ip) :=
  scored_run (fun s _ h => (counters_step h s).2.2.2.1) (fun s _ h => correctH_step h s) es s

end BranchPrediction.MyBranch
