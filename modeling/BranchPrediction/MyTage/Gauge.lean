import BranchPrediction.MyTage.Step

/-!
# What an event decides

Whether a table hits, and the counters it then reads, decide everything an event
does; the tags themselves are only compared.  A `View` holds these data as
natural numbers, with the signed counter of an entry counted from its lower end,
so that base counters and entries alike predict taken from 2 on.

`State.Valid` is the invariant that the bytes stay in the ranges the source
gives for them.  Under it the view of an event does what the event does
(`view_prediction`, `gauge_next1`, `gauge_next2`), so no byte wraps.
-/

namespace BranchPrediction.MyTage

open Automata

/-- A table entry but for its tag: the counter, counted from its lower end, and
the usefulness. -/
structure Gauge where
  counter : ℕ
  u : ℕ
deriving DecidableEq

namespace Gauge

/-- The direction the counter predicts. -/
def taken (g : Gauge) : Bool :=
  2 ≤ g.counter

def update (prediction actual : Bool) (g : Gauge) : Gauge where
  counter := if actual then min (g.counter + 1) 5 else g.counter - 1
  u := if prediction = actual then min (g.u + 1) 3 else g.u - 1

/-- A newly allocated entry. -/
def fresh (actual : Bool) : Gauge :=
  ⟨if actual then 2 else 1, 0⟩

/-- The gauge, halved if the halving is due. -/
def halve (g : Gauge) (due : Bool) : Gauge :=
  if due then { g with u := g.u / 2 } else g

@[simp] theorem counter_halve (g : Gauge) (due : Bool) : (g.halve due).counter = g.counter := by
  cases due <;> rfl

@[simp] theorem taken_halve (g : Gauge) (due : Bool) : (g.halve due).taken = g.taken := by
  cases due <;> rfl

theorem u_halve (g : Gauge) (due : Bool) : (g.halve due).u = if due then g.u / 2 else g.u := by
  cases due <;> rfl

/-- Training on the outcome a counter predicts confirms it. -/
theorem taken_update {g : Gauge} {actual : Bool} (h : g.taken = actual) (prediction : Bool) :
    (g.update prediction actual).taken = actual := by
  subst h
  cases ht : g.taken with
  | true => simp only [taken, decide_eq_true_eq] at ht; simp [taken, update]; omega
  | false => simp only [taken, decide_eq_false_iff_not] at ht; simp [taken, update]; omega

end Gauge

/-- What an event reads, but for the tags. -/
@[ext]
structure View where
  base : ℕ
  hit1 : Bool
  hit2 : Bool
  gauge1 : Gauge
  gauge2 : Gauge
deriving DecidableEq

namespace View

variable (v : View)

def altPred : Bool :=
  if v.hit1 then v.gauge1.taken else 2 ≤ v.base

def prediction : Bool :=
  if v.hit2 && v.gauge2.u != 0 then v.gauge2.taken else v.altPred

/-- The event allocates in `T2`. -/
def claims2 (actual : Bool) : Bool :=
  !v.hit2 && v.prediction != actual && v.gauge2.u == 0

/-- The event allocates in `T1`. -/
def claims1 (actual : Bool) : Bool :=
  !v.hit1 && v.prediction != actual && (v.hit2 || v.gauge2.u != 0) && v.gauge1.u == 0

/-- The `T2` entry after the event. -/
def next2 (actual : Bool) : Gauge :=
  if v.claims2 actual then .fresh actual
  else if v.hit2 then v.gauge2.update v.prediction actual
  else v.gauge2

/-- The `T1` entry after the event. -/
def next1 (actual : Bool) : Gauge :=
  if v.claims1 actual then .fresh actual
  else if v.hit1 && !v.hit2 then v.gauge1.update v.prediction actual
  else v.gauge1

end View

/-- A base counter after an event. -/
def nextBase (actual : Bool) (base : ℕ) : ℕ :=
  if actual then min (base + 1) 3 else base - 1

/-! ## The ranges of the bytes -/

/-- The ranges of the source: the counter from −2 to +3, the usefulness up to 3. -/
structure TageEntry.Valid (entry : TageEntry) : Prop where
  le_counter : -2 ≤ entry.counter.toInt
  counter_le : entry.counter.toInt ≤ 3
  u_le : entry.u.toNat ≤ 3

/-- Every entry of the tables is in range. -/
structure Tables.Valid (T : Tables) : Prop where
  t1 : ∀ i : Fin t1Size, (T.deref (.t1 i)).Valid
  t2 : ∀ i : Fin t2Size, (T.deref (.t2 i)).Valid

/-- Every entry and every base counter is in range. -/
structure State.Valid (s : State) : Prop extends s.toTables.Valid where
  t0 : ∀ ip : ADDRINT, (s.t0[ip]?.getD 2).toNat ≤ 3

/-- The gauge of an entry. -/
def TageEntry.gauge (entry : TageEntry) : Gauge :=
  ⟨(entry.counter.toInt + 2).toNat, entry.u.toNat⟩

/-- The view of a lookup. -/
def Lookup.view (v : Lookup) : View :=
  ⟨v.base.toNat, v.hit1, v.hit2, v.entry1.gauge, v.entry2.gauge⟩

namespace TageEntry

variable {entry : TageEntry}

theorem toInt_counter (h : entry.Valid) : entry.counter.toInt = entry.gauge.counter - 2 := by
  have := h.le_counter
  simp only [gauge]
  omega

theorem taken_gauge (h : entry.Valid) : entry.gauge.taken = (entry.counter ≥ 0 : Bool) := by
  apply decide_eq_decide.mpr
  rw [ge_iff_le, Int8.le_iff_toInt_le, toInt_counter h, Int8.toInt_zero]
  omega

theorem u_eq_zero_iff (entry : TageEntry) : entry.u = 0 ↔ entry.gauge.u = 0 :=
  UInt8.toNat_inj.symm

/-- The counter moves one step, and stays in range. -/
theorem toInt_updateEntry (h : entry.Valid) (prediction actual : Bool) :
    (updateEntry entry prediction actual).counter.toInt =
      if actual then min (entry.counter.toInt + 1) 3 else max (entry.counter.toInt - 1) (-2) := by
  have hle := h.le_counter
  have hge := h.counter_le
  have hlt : entry.counter < 3 ↔ entry.counter.toInt < 3 := Int8.lt_iff_toInt_lt
  have hgt : entry.counter > -2 ↔ -2 < entry.counter.toInt := Int8.lt_iff_toInt_lt
  unfold updateEntry
  cases actual with
  | true =>
      simp only [if_true, hlt]
      split
      · rw [Int8.toInt_add, Int8.toInt_one, Int.bmod_eq_of_le_mul_two] <;> omega
      · omega
  | false =>
      simp only [Bool.false_eq_true, if_false, hgt]
      split
      · rw [Int8.toInt_sub, Int8.toInt_one, Int.bmod_eq_of_le_mul_two] <;> omega
      · omega

/-- The usefulness moves one step, and stays in range. -/
theorem toNat_updateEntry (h : entry.Valid) (prediction actual : Bool) :
    (updateEntry entry prediction actual).u.toNat =
      if prediction = actual then min (entry.u.toNat + 1) 3 else entry.u.toNat - 1 := by
  have := MyBranch.toNat_bump h.u_le (prediction = actual)
  simp only [MyBranch.bump, decide_eq_true_eq] at this
  exact this

theorem gauge_updateEntry (h : entry.Valid) (prediction actual : Bool) :
    (updateEntry entry prediction actual).gauge = entry.gauge.update prediction actual := by
  have hle := h.le_counter
  rw [gauge, toInt_updateEntry h, toNat_updateEntry h]
  cases actual <;> simp only [Gauge.update, gauge, Gauge.mk.injEq, and_true, if_true,
    Bool.false_eq_true, if_false] <;> omega

theorem gauge_newEntry (tag : UInt16) (actual : Bool) :
    (newEntry tag actual).gauge = .fresh actual := by
  cases actual <;> rfl

theorem gauge_halve (entry : TageEntry) (due : Bool) :
    (entry.halve due).gauge = entry.gauge.halve due := by
  have hshift : (entry.u >>> 1).toNat = entry.u.toNat / 2 := by
    rw [UInt8.toNat_shiftRight, show UInt8.toNat 1 % 8 = 1 from rfl, Nat.shiftRight_one]
  cases due with
  | true => simp [halve, gauge, Gauge.halve, hshift]
  | false => rfl

theorem tag_halve (entry : TageEntry) (due : Bool) : (entry.halve due).tag = entry.tag := by
  cases due <;> rfl

theorem Valid.updateEntry (h : entry.Valid) (prediction actual : Bool) :
    (MyTage.updateEntry entry prediction actual).Valid := by
  have := h.le_counter
  have := h.counter_le
  have := h.u_le
  constructor
  · rw [toInt_updateEntry h]; split <;> omega
  · rw [toInt_updateEntry h]; split <;> omega
  · rw [toNat_updateEntry h]; split <;> omega

theorem valid_newEntry (tag : UInt16) (actual : Bool) : (newEntry tag actual).Valid := by
  cases actual with
  | true => exact ⟨show (-2 : ℤ) ≤ 0 by omega, show (0 : ℤ) ≤ 3 by omega, Nat.zero_le 3⟩
  | false => exact ⟨show (-2 : ℤ) ≤ -1 by omega, show (-1 : ℤ) ≤ 3 by omega, Nat.zero_le 3⟩

theorem Valid.halve (h : entry.Valid) (due : Bool) : (entry.halve due).Valid := by
  cases due with
  | true =>
      refine ⟨h.le_counter, h.counter_le, ?_⟩
      have := congrArg Gauge.u (gauge_halve entry true)
      have := h.u_le
      simp only [gauge, Gauge.u_halve, if_true] at *
      omega
  | false => exact h

end TageEntry

/-! ### The view of a lookup in range -/

/-- The two entries and the base counter a lookup reads are in range. -/
structure Lookup.Valid (v : Lookup) : Prop where
  base : v.base.toNat ≤ 3
  entry1 : v.entry1.Valid
  entry2 : v.entry2.Valid

namespace Lookup

variable {v : Lookup}

@[simp] theorem view_hit1 : v.view.hit1 = v.hit1 := rfl

@[simp] theorem view_hit2 : v.view.hit2 = v.hit2 := rfl

@[simp] theorem view_gauge1 : v.view.gauge1 = v.entry1.gauge := rfl

@[simp] theorem view_gauge2 : v.view.gauge2 = v.entry2.gauge := rfl

section

variable (h : v.Valid)
include h

theorem view_altPred : v.view.altPred = v.altPred := by
  have hbase : (2 ≤ v.view.base : Bool) = v.basePred := by
    apply decide_eq_decide.mpr
    rw [ge_iff_le, UInt8.le_iff_toNat_le]
    rfl
  rw [View.altPred, altPred, hbase, view_hit1, view_gauge1, TageEntry.taken_gauge h.entry1]

theorem view_prediction : v.view.prediction = v.prediction := by
  have hu : (v.entry2.gauge.u != 0) = (v.entry2.u != 0) := by
    rw [Bool.eq_iff_iff, bne_iff_ne, bne_iff_ne, ne_eq, ne_eq, TageEntry.u_eq_zero_iff]
  rw [View.prediction, prediction, view_hit2, view_gauge2, hu, view_altPred h,
    TageEntry.taken_gauge h.entry2]

theorem claims2_iff (actual : Bool) : v.view.claims2 actual ↔
    v.hit2 = false ∧ v.prediction ≠ actual ∧ v.entry2.u = 0 := by
  simp [View.claims2, view_prediction h, TageEntry.u_eq_zero_iff, and_assoc]

theorem claims1_iff (actual : Bool) : v.view.claims1 actual ↔
    v.hit1 = false ∧ v.prediction ≠ actual ∧ (v.hit2 ∨ v.entry2.u ≠ 0) ∧ v.entry1.u = 0 := by
  simp [View.claims1, view_prediction h, TageEntry.u_eq_zero_iff, and_assoc]

/-- The `T2` entry after an event: allocated, trained or left alone. -/
theorem next2_eq (actual : Bool) : v.next2 actual =
    if v.view.claims2 actual then newEntry v.tag2 actual
    else if v.hit2 then updateEntry v.entry2 v.prediction actual else v.entry2 := by
  simp only [claims2_iff h, next2]
  cases v.hit2 <;> simp

/-- The `T1` entry after an event: allocated, trained or left alone. -/
theorem next1_eq (actual : Bool) : v.next1 actual =
    if v.view.claims1 actual then newEntry v.tag1 actual
    else if v.hit1 && !v.hit2 then updateEntry v.entry1 v.prediction actual else v.entry1 := by
  simp only [claims1_iff h, next1]
  cases v.hit1 <;> cases v.hit2 <;> simp

theorem gauge_next2 (actual : Bool) : (v.next2 actual).gauge = v.view.next2 actual := by
  rw [next2_eq h, View.next2, view_prediction h, view_hit2, view_gauge2,
    ← TageEntry.gauge_updateEntry h.entry2, ← TageEntry.gauge_newEntry v.tag2]
  simp only [apply_ite TageEntry.gauge]

theorem gauge_next1 (actual : Bool) : (v.next1 actual).gauge = v.view.next1 actual := by
  rw [next1_eq h, View.next1, view_prediction h, view_hit1, view_hit2, view_gauge1,
    ← TageEntry.gauge_updateEntry h.entry1, ← TageEntry.gauge_newEntry v.tag1]
  simp only [apply_ite TageEntry.gauge]

theorem tag_next2 (actual : Bool) :
    (v.next2 actual).tag = if v.view.claims2 actual then v.tag2 else v.entry2.tag := by
  rw [next2_eq h]
  split_ifs <;> rfl

theorem tag_next1 (actual : Bool) :
    (v.next1 actual).tag = if v.view.claims1 actual then v.tag1 else v.entry1.tag := by
  rw [next1_eq h]
  split_ifs <;> rfl

/-- The lookup hits afterwards if it did before, or if the event allocated the entry. -/
theorem hit_next2 (actual : Bool) :
    ((v.next2 actual).tag = v.tag2 : Bool) = (v.hit2 || v.view.claims2 actual) := by
  rw [tag_next2 h, hit2]
  cases v.view.claims2 actual <;> simp

theorem hit_next1 (actual : Bool) :
    ((v.next1 actual).tag = v.tag1 : Bool) = (v.hit1 || v.view.claims1 actual) := by
  rw [tag_next1 h, hit1]
  cases v.view.claims1 actual <;> simp

theorem valid_next2 (actual : Bool) : (v.next2 actual).Valid := by
  rw [next2_eq h]
  split_ifs
  · exact TageEntry.valid_newEntry _ _
  · exact h.entry2.updateEntry _ _
  · exact h.entry2

theorem valid_next1 (actual : Bool) : (v.next1 actual).Valid := by
  rw [next1_eq h]
  split_ifs
  · exact TageEntry.valid_newEntry _ _
  · exact h.entry1.updateEntry _ _
  · exact h.entry1

end

end Lookup

/-! ## The ranges hold throughout -/

theorem State.Valid.lookup {s : State} (h : s.Valid) (ip : ADDRINT) : (s.lookup ip).Valid :=
  ⟨h.t0 ip, h.t1 (s.idx1 ip), h.t2 (s.idx2 ip)⟩

theorem State.Valid.step {s : State} (h : s.Valid) (range : Range) (e : Event) :
    (MyTage.step range s e).Valid := by
  by_cases he : range.Contains e.ip
  · have hlookup := h.lookup e.ip
    refine ⟨⟨?_, ?_⟩, ?_⟩
    · intro i
      rw [deref_t1_step he]
      apply TageEntry.Valid.halve
      split
      · exact Lookup.valid_next1 hlookup _
      · exact h.t1 i
    · intro i
      rw [deref_t2_step he]
      apply TageEntry.Valid.halve
      split
      · exact Lookup.valid_next2 hlookup _
      · exact h.t2 i
    · intro ip
      have hip := h.t0 ip
      rw [getD_t0_step he]
      split
      · rw [MyBranch.toNat_bump hip]
        split <;> omega
      · exact hip
  · rw [step_of_not_contains he]
    exact h

theorem valid_initial : State.Valid {} := by
  refine ⟨⟨?_, ?_⟩, ?_⟩
  · intro i
    simp only [Tables.deref, Fin.getElem_fin, Vector.getElem_replicate]
    exact ⟨by decide, by decide, by decide⟩
  · intro i
    simp only [Tables.deref, Fin.getElem_fin, Vector.getElem_replicate]
    exact ⟨by decide, by decide, by decide⟩
  · intro ip
    simp

theorem valid_run (range : Range) (es : List Event) : (run range es {}).Valid := by
  apply foldl_invariant _ valid_initial es
  intro s e h
  exact h.step range e

end BranchPrediction.MyTage
