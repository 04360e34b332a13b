import BranchPrediction.Automata.ShiftRegister
import BranchPrediction.MyBranch.Step
import BranchPrediction.MyTage.Model

/-!
# One event of `MyTage`

An event reads five things: the base counter of its branch, the tags of the two
lookups and the two entries they find.  `Lookup` holds them, and its functions
say what `RecordBranch` predicts from them and what it leaves in the two
entries.  `tables_step` and the lemmas after it reduce an event to its lookup;
nothing later unfolds `recordBranch`.

The history register is the shift register of `Automata.ShiftRegister`, and the
base counters are the 2-bit counters of `MyBranch`, written another way.
-/

namespace BranchPrediction.MyTage

open Cpp Automata

/-- What one event reads. -/
structure Lookup where
  base : UInt8
  tag1 : UInt16
  tag2 : UInt16
  entry1 : TageEntry
  entry2 : TageEntry

/-- What the next event of a branch reads. -/
def State.lookup (s : State) (ip : ADDRINT) : Lookup :=
  ⟨s.t0[ip]?.getD 2, s.tag1 ip, s.tag2 ip, s.deref (.t1 (s.idx1 ip)), s.deref (.t2 (s.idx2 ip))⟩

namespace Lookup

variable (v : Lookup)

def hit1 : Bool := v.entry1.tag = v.tag1

def hit2 : Bool := v.entry2.tag = v.tag2

def basePred : Bool := v.base ≥ 2

/-- The alternate of a `T2` provider, and what a `T1` provider predicts: its own
usefulness makes no difference, because the alternate is then its own counter. -/
def altPred : Bool :=
  if v.hit1 then v.entry1.counter ≥ 0 else v.basePred

def prediction : Bool :=
  if v.hit2 && v.entry2.u != 0 then v.entry2.counter ≥ 0 else v.altPred

/-- The `T2` entry after the event. -/
def next2 (actual : Bool) : TageEntry :=
  if v.hit2 then updateEntry v.entry2 v.prediction actual
  else if v.prediction ≠ actual ∧ v.entry2.u = 0 then newEntry v.tag2 actual
  else v.entry2

/-- The `T1` entry after the event. -/
def next1 (actual : Bool) : TageEntry :=
  if v.hit1 then if v.hit2 then v.entry1 else updateEntry v.entry1 v.prediction actual
  else if v.prediction ≠ actual ∧ (v.hit2 ∨ v.entry2.u ≠ 0) ∧ v.entry1.u = 0 then
    newEntry v.tag1 actual
  else v.entry1

end Lookup

theorem lookup_hit1 (s : State) (ip : ADDRINT) : (s.lookup ip).hit1 = s.hit1 ip := rfl

theorem lookup_hit2 (s : State) (ip : ADDRINT) : (s.lookup ip).hit2 = s.hit2 ip := rfl

theorem lookup_basePred (s : State) (ip : ADDRINT) :
    (s.lookup ip).basePred = s.basePred ip := by
  unfold State.basePred State.t0With
  rw [s.t0.read_ite_insert ip 2]
  rfl

theorem lookup_altPred (s : State) (ip : ADDRINT) : (s.lookup ip).altPred = s.altPred ip := by
  unfold Lookup.altPred State.altPred
  rw [lookup_basePred, lookup_hit1]
  rfl

theorem lookup_prediction (s : State) (ip : ADDRINT) :
    (s.lookup ip).prediction = s.prediction ip := by
  unfold Lookup.prediction State.prediction State.provider
  rw [lookup_altPred, lookup_hit2]
  cases h2 : s.hit2 ip with
  | true => simp [Tables.deref, State.lookup]
  | false =>
      cases h1 : s.hit1 ip with
      | true => simp [State.altPred, h1, Tables.deref]
      | false => simp [State.altPred, h1]

/-- The update of the provider and the allocation write the two entries of the
lookup, and nothing else. -/
theorem allocate_updateProvider (s : State) (ip : ADDRINT) (actual : Bool) :
    (let T := updateProvider s.toTables (s.provider ip) (s.prediction ip) actual
      if s.prediction ip ≠ actual then
        allocate T (s.idx1 ip) (s.idx2 ip) (s.tag1 ip) (s.tag2 ip) (s.hit1 ip) (s.hit2 ip) actual
      else T) =
      (s.assign (.t1 (s.idx1 ip)) ((s.lookup ip).next1 actual)).assign (.t2 (s.idx2 ip))
        ((s.lookup ip).next2 actual) := by
  have htag1 : s.tag1 ip = (s.lookup ip).tag1 := rfl
  have htag2 : s.tag2 ip = (s.lookup ip).tag2 := rfl
  have h1 : s.t1[(s.idx1 ip).val] = (s.lookup ip).entry1 := rfl
  have h2 : s.t2[(s.idx2 ip).val] = (s.lookup ip).entry2 := rfl
  have hset1 : s.t1.set (s.idx1 ip) (s.lookup ip).entry1 = s.t1 := Vector.set_getElem_self _
  have hset2 : s.t2.set (s.idx2 ip) (s.lookup ip).entry2 = s.t2 := Vector.set_getElem_self _
  unfold State.provider
  rw [← lookup_prediction, ← lookup_hit1, ← lookup_hit2]
  unfold Lookup.next1 Lookup.next2 updateProvider allocate
  cases (s.lookup ip).hit2 <;> cases (s.lookup ip).hit1 <;>
    by_cases hp : (s.lookup ip).prediction = actual <;>
    simp [Tables.assign, Tables.deref, hp, h1, h2, hset1, hset2] <;>
    split_ifs <;> simp_all

/-! ### The state after an event -/

/-- An entry, halved if the halving is due. -/
def TageEntry.halve (entry : TageEntry) (due : Bool) : TageEntry :=
  if due then { entry with u := entry.u >>> 1 } else entry

@[simp] theorem TageEntry.halve_false (entry : TageEntry) : entry.halve false = entry := rfl

theorem Tables.deref_assign (T : Tables) (p q : Pointer) (entry : TageEntry) :
    (T.assign p entry).deref q = if p = q then entry else T.deref q := by
  cases p <;> cases q <;>
    simp [Tables.assign, Tables.deref, Vector.getElem_set, Fin.ext_iff]

theorem deref_age (T : Tables) (p : Pointer) : (age T).deref p = (T.deref p).halve true := by
  cases p <;> simp [age, Tables.deref, TageEntry.halve]

/-- The part of the state that belongs to one branch: its map entries. -/
@[ext]
structure Slice where
  t0 : Option UInt8
  history : Option (List BranchTrace)
  mispred : Option Int32
deriving DecidableEq

/-- The entries of one branch. -/
def slice (s : State) (ip : ADDRINT) : Slice :=
  ⟨s.t0[ip]?, s.history[ip]?, s.mispredPerBranch[ip]?⟩

/-- What an event does to the entries of its branch, given whether it was
predicted. -/
def Slice.record (c : Slice) (right : Bool) (e : Event) : Slice where
  t0 := some (MyBranch.bump e.isTaken (c.t0.getD 2))
  history := some (c.history.getD [] ++ [e.trace])
  mispred := if right then c.mispred else some (c.mispred.getD 0 + 1)

/-- The base counters are the 2-bit counters of `MyBranch`: inserting before the
prediction or after it leaves the same table. -/
theorem getElem?_updateBase (s : State) (ip a : ADDRINT) (actual : Bool) :
    (updateBase (s.t0With ip) ip actual)[a]? =
      if ip = a then some (MyBranch.bump actual (s.t0[ip]?.getD 2)) else s.t0[a]? :=
  MyBranch.getElem?_updateBht2 s.t0 ip a actual

section

variable {range : Range} {e : Event} (h : range.Contains e.ip) (s : State)
include h

/-- The tables after an event: the two entries of its lookup move, and every
thousand and twenty-fourth event halves the usefulness of all. -/
theorem tables_step :
    (step range s e).toTables =
      let v := s.lookup e.ip
      let T := (s.assign (.t1 (s.idx1 e.ip)) (v.next1 e.isTaken)).assign (.t2 (s.idx2 e.ip))
        (v.next2 e.isTaken)
      if (s.clock + 1) % 1024 = 0 then age T else T := by
  rw [range.contains_iff_not_skipped] at h
  unfold step recordBranch
  rw [if_neg h]
  dsimp only
  rw [← allocate_updateProvider, ← Nat.and_two_pow_sub_one_eq_mod _ 10]

theorem deref_t1_step (i : Fin t1Size) :
    (step range s e).deref (.t1 i) = ((if s.idx1 e.ip = i then (s.lookup e.ip).next1 e.isTaken
      else s.deref (.t1 i)).halve ((s.clock + 1) % 1024 = 0)) := by
  rw [tables_step h]
  by_cases hclock : (s.clock + 1) % 1024 = 0
  · simp [hclock, deref_age, Tables.deref_assign]
  · simp [hclock, Tables.deref_assign]

theorem deref_t2_step (i : Fin t2Size) :
    (step range s e).deref (.t2 i) = ((if s.idx2 e.ip = i then (s.lookup e.ip).next2 e.isTaken
      else s.deref (.t2 i)).halve ((s.clock + 1) % 1024 = 0)) := by
  rw [tables_step h]
  by_cases hclock : (s.clock + 1) % 1024 = 0
  · simp [hclock, deref_age, Tables.deref_assign]
  · simp [hclock, Tables.deref_assign]

/-- The history register shifts the outcome in. -/
theorem toNat_ghr_step : (step range s e).ghr.toNat = push 16 s.ghr.toNat e.isTaken := by
  rw [range.contains_iff_not_skipped] at h
  unfold step recordBranch
  rw [if_neg h]
  dsimp only
  have hmask : ghrMask.toNat = 2 ^ 16 - 1 := rfl
  have hbit : (if e.isTaken then (1 : UInt64) else 0).toNat = e.isTaken.toNat := by
    cases e.isTaken <;> rfl
  have hone : (1 : UInt64).toNat % 64 = 1 := rfl
  rw [UInt64.toNat_and, UInt64.toNat_or, UInt64.toNat_shiftLeft, hmask, hbit, hone,
    Nat.and_two_pow_sub_one_eq_mod]
  apply Nat.eq_of_testBit_eq
  intro i
  rw [testBit_push, Nat.testBit_mod_two_pow, Nat.testBit_or, Nat.testBit_mod_two_pow,
    Nat.testBit_shiftLeft]
  cases i with
  | zero => cases e.isTaken <;> simp
  | succ i =>
      have hb : e.isTaken.toNat.testBit (i + 1) = false := by
        cases e.isTaken <;> simp [Nat.testBit_succ]
      by_cases hi : i + 1 < 16
      · simp [hi, hb, show i + 1 < 64 by omega]
      · simp [hi]

/-- The entries of the event's branch are rewritten, and no other branch's are. -/
theorem slice_step_of_contains (ip : ADDRINT) :
    slice (step range s e) ip =
      if e.ip = ip then (slice s ip).record ((s.lookup e.ip).prediction = e.isTaken) e
      else slice s ip := by
  have ht0 := getElem?_updateBase s e.ip ip e.isTaken
  have hmispred := MyBranch.getElem?_mispredBranch s.mispredPerBranch e.ip ip
    (s.prediction e.ip = e.isTaken)
  rw [ite_not, ← lookup_prediction] at hmispred
  rw [range.contains_iff_not_skipped] at h
  unfold step recordBranch
  rw [if_neg h]
  dsimp only
  rw [← lookup_prediction]
  by_cases hip : e.ip = ip
  · subst hip
    rw [if_pos rfl] at ht0 hmispred ⊢
    ext1
    · exact ht0
    · exact (Map.getElem?_update ..).trans (if_pos rfl)
    · apply hmispred.trans
      simp only [Slice.record, decide_eq_true_eq]
      rfl
  · rw [if_neg hip] at ht0 hmispred ⊢
    ext1
    · exact ht0
    · exact (Map.getElem?_update ..).trans (if_neg hip)
    · exact hmispred

/-- The base counter a branch is read from. -/
theorem getD_t0_step (ip : ADDRINT) :
    (step range s e).t0[ip]?.getD 2 =
      if e.ip = ip then MyBranch.bump e.isTaken (s.t0[ip]?.getD 2) else s.t0[ip]?.getD 2 := by
  have ht0 : (step range s e).t0[ip]? = _ := congrArg Slice.t0 (slice_step_of_contains h s ip)
  rw [ht0]
  split <;> rfl

theorem counters_step :
    (step range s e).total = s.total + 1 ∧
      (step range s e).tagePred = s.tagePred + 1 ∧
      (step range s e).clock = s.clock + 1 ∧
      (step range s e).taken = s.taken + (if e.isTaken then 1 else 0) ∧
      (step range s e).nottaken = s.nottaken + if e.isTaken then 0 else 1 := by
  rw [range.contains_iff_not_skipped] at h
  simp only [step, recordBranch, if_neg h, true_and]
  cases e.isTaken <;> exact ⟨rfl, rfl⟩

theorem tageCorrect_step : (step range s e).tageCorrect =
    s.tageCorrect + if (s.lookup e.ip).prediction = e.isTaken then 1 else 0 := by
  rw [range.contains_iff_not_skipped] at h
  unfold step recordBranch
  rw [if_neg h]
  dsimp only
  rw [lookup_prediction]
  split <;> rfl

end

end BranchPrediction.MyTage
