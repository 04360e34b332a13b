import BranchPrediction.MyTage.Hash

/-!
# `MyTage.cpp`

The recording half of the tool: its globals, `RecordBranch`, and runs of it.
`TageEntry *provider` points into one of the two tables or is null; a pointer is
a table and an index into it, and what it is read and written through is
`deref` and `assign`.

As in `MyBranch`, the `UINT64` counters are natural numbers.
-/

namespace BranchPrediction.MyTage

open Cpp

/-- `TageEntry`. -/
structure TageEntry where
  tag : UInt16 := 0
  counter : Int8 := 0
  u : UInt8 := 0
deriving DecidableEq

/-- The tagged tables `T1` and `T2`. -/
structure Tables where
  t1 : Vector TageEntry t1Size := Vector.replicate t1Size {}
  t2 : Vector TageEntry t2Size := Vector.replicate t2Size {}

/-- The globals of `MyTage.cpp`, as they are initialized. -/
structure State extends Tables where
  ghr : UInt64 := 0
  history : Map ADDRINT (List BranchTrace) := ∅
  t0 : Map ADDRINT UInt8 := ∅
  mispredPerBranch : Map ADDRINT Int32 := ∅
  total : ℕ := 0
  taken : ℕ := 0
  nottaken : ℕ := 0
  tagePred : ℕ := 0
  tageCorrect : ℕ := 0
  clock : ℕ := 0

/-- `GHR_MASK`. -/
def ghrMask : UInt64 := (1 <<< hist2) - 1

/-- A `TageEntry *` into one of the tables. -/
inductive Pointer where
  | t1 (i : Fin t1Size)
  | t2 (i : Fin t2Size)
deriving DecidableEq

/-- `*p`, read. -/
def Tables.deref (T : Tables) : Pointer → TageEntry
  | .t1 i => T.t1[i]
  | .t2 i => T.t2[i]

/-- `*p`, written. -/
def Tables.assign (T : Tables) (p : Pointer) (entry : TageEntry) : Tables :=
  match p with
  | .t1 i => { T with t1 := T.t1.set i entry }
  | .t2 i => { T with t2 := T.t2.set i entry }

namespace State

variable (s : State) (ip : ADDRINT)

/-- `idx1`. -/
def idx1 : Fin t1Size :=
  ⟨(getIndex ip s.ghr hist1 t1Size).toNat, getIndex_lt ip s.ghr hist1⟩

/-- `idx2`. -/
def idx2 : Fin t2Size :=
  ⟨(getIndex ip s.ghr hist2 t2Size).toNat, getIndex_lt ip s.ghr hist2⟩

/-- `tag1`. -/
def tag1 : UInt16 := getTag ip s.ghr hist1

/-- `tag2`. -/
def tag2 : UInt16 := getTag ip s.ghr hist2

/-- `hit1`. -/
def hit1 : Bool := s.t1[s.idx1 ip].tag = s.tag1 ip

/-- `hit2`. -/
def hit2 : Bool := s.t2[s.idx2 ip].tag = s.tag2 ip

/-- `T0` once the branch has an entry. -/
def t0With : Map ADDRINT UInt8 :=
  if s.t0.contains ip then s.t0 else s.t0.insert ip 2

/-- `basePred`. -/
def basePred : Bool := (s.t0With ip).read ip ≥ 2

/-- `altPred`: the base prediction, unless `T1` hits. -/
def altPred : Bool :=
  if s.hit1 ip then s.t1[s.idx1 ip].counter ≥ 0 else s.basePred ip

/-- `provider`. -/
def provider : Option Pointer :=
  if s.hit2 ip then some (.t2 (s.idx2 ip))
  else if s.hit1 ip then some (.t1 (s.idx1 ip))
  else none

/-- `prediction`. -/
def prediction : Bool :=
  match s.provider ip with
  | some p => if (s.deref p).u = 0 then s.altPred ip else (s.deref p).counter ≥ 0
  | none => s.basePred ip

end State

/-- The base counter moves towards the outcome. -/
def updateBase (t0 : Map ADDRINT UInt8) (ip : ADDRINT) (actual : Bool) : Map ADDRINT UInt8 :=
  let base := t0.read ip
  if actual then if base < 3 then t0.update ip (· + 1) else t0
  else if base > 0 then t0.update ip (· - 1) else t0

/-- The provider's counter moves towards the outcome, and its usefulness with
the prediction. -/
def updateEntry (entry : TageEntry) (prediction actual : Bool) : TageEntry where
  tag := entry.tag
  counter :=
    if actual then if entry.counter < 3 then entry.counter + 1 else entry.counter
    else if entry.counter > -2 then entry.counter - 1 else entry.counter
  u :=
    if prediction = actual then if entry.u < 3 then entry.u + 1 else entry.u
    else if entry.u > 0 then entry.u - 1 else entry.u

/-- The update of the provider, if there is one. -/
def updateProvider (T : Tables) (provider : Option Pointer) (prediction actual : Bool) : Tables :=
  match provider with
  | some p => T.assign p (updateEntry (T.deref p) prediction actual)
  | none => T

/-- A newly allocated entry. -/
def newEntry (tag : UInt16) (actual : Bool) : TageEntry :=
  ⟨tag, if actual then 0 else -1, 0⟩

/-- The allocation after a misprediction: in `T2` if it missed and its entry is
not protected, else likewise in `T1`. -/
def allocate (T : Tables) (idx1 : Fin t1Size) (idx2 : Fin t2Size) (tag1 tag2 : UInt16)
    (hit1 hit2 actual : Bool) : Tables :=
  if !hit2 && T.t2[idx2].u = 0 then { T with t2 := T.t2.set idx2 (newEntry tag2 actual) }
  else if !hit1 && T.t1[idx1].u = 0 then { T with t1 := T.t1.set idx1 (newEntry tag1 actual) }
  else T

/-- The halving of every usefulness counter. -/
def age (T : Tables) : Tables where
  t1 := T.t1.map fun entry => { entry with u := entry.u >>> 1 }
  t2 := T.t2.map fun entry => { entry with u := entry.u >>> 1 }

/-- `RecordBranch`. -/
def recordBranch (range : Range) (ip target : ADDRINT) (isTaken : Bool) (s : State) : State :=
  if ip < range.low ∨ ip > range.high then s else
  let actual := isTaken
  let prediction := s.prediction ip
  -- update base
  let t0 := updateBase (s.t0With ip) ip actual
  -- update provider
  let T := updateProvider s.toTables (s.provider ip) prediction actual
  -- allocation
  let T :=
    if prediction ≠ actual then
      allocate T (s.idx1 ip) (s.idx2 ip) (s.tag1 ip) (s.tag2 ip) (s.hit1 ip) (s.hit2 ip) actual
    else T
  -- record trace with target PC
  let bt : BranchTrace := ⟨if actual then 'T' else 'N', target⟩
  -- aging
  let clock := s.clock + 1
  let T := if clock &&& 1023 = 0 then age T else T
  { toTables := T
    ghr := ((s.ghr <<< 1) ||| (if actual then 1 else 0)) &&& ghrMask
    history := s.history.update ip (· ++ [bt])
    t0
    mispredPerBranch :=
      if prediction = actual then s.mispredPerBranch else s.mispredPerBranch.update ip (· + 1)
    total := s.total + 1
    taken := if actual then s.taken + 1 else s.taken
    nottaken := if actual then s.nottaken else s.nottaken + 1
    tagePred := s.tagePred + 1
    tageCorrect := if prediction = actual then s.tageCorrect + 1 else s.tageCorrect
    clock }

/-- The tool's reaction to one event. -/
def step (range : Range) (s : State) (e : Event) : State :=
  recordBranch range e.ip e.target e.isTaken s

/-- A stream of events fed to the tool. -/
def run (range : Range) (es : List Event) (s : State) : State :=
  es.foldl (step range) s

theorem run_append (range : Range) (es es' : List Event) (s : State) :
    run range (es ++ es') s = run range es' (run range es s) :=
  List.foldl_append

theorem run_concat (range : Range) (es : List Event) (e : Event) (s : State) :
    run range (es ++ [e]) s = step range (run range es s) e :=
  List.foldl_concat ..

theorem step_of_not_contains {range : Range} {e : Event} (h : ¬ range.Contains e.ip) (s : State) :
    step range s e = s := by
  rw [range.contains_iff_not_skipped, not_not] at h
  exact if_pos h

end BranchPrediction.MyTage
