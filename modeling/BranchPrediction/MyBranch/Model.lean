import BranchPrediction.Trace

/-!
# `MyBranch.cpp`

The recording half of the tool: its globals, `RecordBranch`, and runs of it.

The `UINT64` counters are natural numbers: every event that is counted also
appends a sixteen-byte `BranchTrace` to `history`, so memory ends long before a
counter reaches `2 ^ 64`.  The per-branch counts are `int`, which memory does
not keep from overflowing, and stay 32-bit.
-/

namespace BranchPrediction.MyBranch

open Cpp

/-- The globals of `MyBranch.cpp`, as they are initialized. -/
structure State where
  mispredBranch : Map ADDRINT Int32 := ∅
  history : Map ADDRINT (List BranchTrace) := ∅
  bht : Map ADDRINT Bool := ∅
  bht2 : Map ADDRINT UInt8 := ∅
  selector : Map ADDRINT UInt8 := ∅
  predictions : ℕ := 0
  correct : ℕ := 0
  pred2 : ℕ := 0
  correct2 : ℕ := 0
  predH : ℕ := 0
  correctH : ℕ := 0
  total : ℕ := 0
  taken : ℕ := 0
  nottaken : ℕ := 0

namespace State

/-- `pred1`: the 1-bit prediction, which without an entry is the outcome itself. -/
def pred1 (s : State) (ip : ADDRINT) (actual : Bool) : Bool :=
  if s.bht.contains ip then s.bht.read ip else actual

/-- `state2`: the 2-bit counter a prediction is made from. -/
def state2 (s : State) (ip : ADDRINT) : UInt8 :=
  if s.bht2.contains ip then s.bht2.read ip else 2

/-- `pred2_val`: the 2-bit prediction. -/
def pred2Val (s : State) (ip : ADDRINT) : Bool :=
  s.state2 ip ≥ 2

/-- The selector table once the branch has an entry. -/
def selectorWith (s : State) (ip : ADDRINT) : Map ADDRINT UInt8 :=
  if s.selector.contains ip then s.selector else s.selector.insert ip 2

/-- `final_pred`: the hybrid prediction. -/
def finalPred (s : State) (ip : ADDRINT) (actual : Bool) : Bool :=
  let sel := (s.selectorWith ip).read ip
  if sel ≤ 1 then s.pred1 ip actual else s.pred2Val ip

end State

/-- The selector moves towards the component that was right, if only one was. -/
def updateSelector (selector : Map ADDRINT UInt8) (ip : ADDRINT)
    (pred1Valid pred2Valid pred1 pred2Val actual : Bool) : Map ADDRINT UInt8 :=
  if pred1Valid && pred2Valid && pred1 != pred2Val then
    if pred2Val = actual ∧ selector.read ip < 3 then selector.update ip (· + 1)
    else if pred1 = actual ∧ selector.read ip > 0 then selector.update ip (· - 1)
    else selector
  else selector

/-- The 2-bit counter moves towards the outcome. -/
def updateBht2 (bht2 : Map ADDRINT UInt8) (ip : ADDRINT) (pred2Valid actual : Bool) :
    Map ADDRINT UInt8 :=
  let bht2 := if pred2Valid then bht2 else bht2.insert ip 2
  if actual then if bht2.read ip < 3 then bht2.update ip (· + 1) else bht2
  else if bht2.read ip > 0 then bht2.update ip (· - 1) else bht2

/-- `RecordBranch`.  `BHT[ip]` and `BHT2[ip]` are read behind `find`; the `touch`
is what `operator[]` would do to the table there. -/
def recordBranch (range : Range) (ip target : ADDRINT) (isTaken : Bool) (s : State) : State :=
  if ip < range.low ∨ ip > range.high then s else
  let actual := isTaken
  -- 1-bit prediction logic
  let pred1Valid := s.bht.contains ip
  let bht := if pred1Valid then s.bht.touch ip else s.bht
  let pred1 := s.pred1 ip actual
  -- 2-bit prediction logic
  let pred2Valid := s.bht2.contains ip
  let bht2 := if pred2Valid then s.bht2.touch ip else s.bht2
  let pred2Val := s.pred2Val ip
  -- hybrid prediction logic
  let selector := s.selectorWith ip
  let finalPred := s.finalPred ip actual
  -- store stats and trace
  let bt : BranchTrace := ⟨if isTaken then 'T' else 'N', target⟩
  { total := s.total + 1
    predictions := s.predictions + 1
    correct := if pred1 = actual then s.correct + 1 else s.correct
    pred2 := s.pred2 + 1
    correct2 := if pred2Val = actual then s.correct2 + 1 else s.correct2
    predH := s.predH + 1
    correctH := if finalPred = actual then s.correctH + 1 else s.correctH
    selector := updateSelector selector ip pred1Valid pred2Valid pred1 pred2Val actual
    bht := bht.insert ip actual
    bht2 := updateBht2 bht2 ip pred2Valid actual
    taken := if isTaken then s.taken + 1 else s.taken
    nottaken := if isTaken then s.nottaken else s.nottaken + 1
    history := s.history.update ip (· ++ [bt])
    mispredBranch :=
      if finalPred ≠ actual then s.mispredBranch.update ip (· + 1) else s.mispredBranch }

/-- The tool's reaction to one event. -/
def step (range : Range) (s : State) (e : Event) : State :=
  recordBranch range e.ip e.target e.isTaken s

/-- A stream of events fed to the tool. -/
def run (range : Range) (es : List Event) (s : State) : State :=
  es.foldl (step range) s

/-- A state some stream leads to from the initial globals. -/
def Reachable (range : Range) (s : State) : Prop :=
  ∃ es, run range es {} = s

theorem run_concat (range : Range) (es : List Event) (e : Event) (s : State) :
    run range (es ++ [e]) s = step range (run range es s) e :=
  List.foldl_concat ..

theorem step_of_not_contains {range : Range} {e : Event} (h : ¬ range.Contains e.ip) (s : State) :
    step range s e = s := by
  rw [range.contains_iff_not_skipped, not_not] at h
  exact if_pos h

end BranchPrediction.MyBranch
