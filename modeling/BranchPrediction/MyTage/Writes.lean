import BranchPrediction.MyTage.Gauge
import BranchPrediction.MyTage.Statistics

/-!
# What an event writes

`RecordBranch` trains its provider through a pointer and then tests the entries
of its two lookups for room, on the tables the training has left.  A table that
hits is never tested, so the tests see what the entries held before the event,
and the entry allocated is never the one trained (`allocated_spec`).

`deref_trained` says what becomes of any entry of either table: it is allocated,
trained or left alone.  The halving every thousand and twenty-four events comes
after that and is all that is left (`deref_step`).
-/

namespace BranchPrediction.MyTage

open Cpp

namespace State

variable (s : State) (ip : ADDRINT) (actual : Bool)

/-- The tables after the update of the provider. -/
def updated : Tables :=
  updateProvider s.toTables (s.provider ip) (s.prediction ip) actual

/-- The tables after the allocation, before any halving. -/
def trained : Tables :=
  if s.prediction ip ≠ actual then
    allocate (s.updated ip actual) (s.idx1 ip) (s.idx2 ip) (s.tag1 ip) (s.tag2 ip) (s.hit1 ip)
      (s.hit2 ip) actual
  else s.updated ip actual

/-- The entry an event allocates, if it allocates one. -/
def allocated : Option Pointer :=
  if s.prediction ip ≠ actual then
    if !s.hit2 ip && ((s.updated ip actual).deref (.t2 (s.idx2 ip))).u = 0 then
      some (.t2 (s.idx2 ip))
    else if !s.hit1 ip && ((s.updated ip actual).deref (.t1 (s.idx1 ip))).u = 0 then
      some (.t1 (s.idx1 ip))
    else none
  else none

/-- The entry a table is looked up at. -/
def LooksUp (p : Pointer) : Prop :=
  p = .t1 (s.idx1 ip) ∨ p = .t2 (s.idx2 ip)

/-- The tag an entry is looked up under. -/
def tagOf : Pointer → UInt16
  | .t1 _ => s.tag1 ip
  | .t2 _ => s.tag2 ip

end State

/-- The direction an entry predicts. -/
def TageEntry.taken (entry : TageEntry) : Bool :=
  entry.counter ≥ 0

section

variable {s : State} {ip : ADDRINT} {actual : Bool} {p : Pointer}

theorem hit1_iff : s.hit1 ip ↔ (s.deref (.t1 (s.idx1 ip))).tag = s.tag1 ip :=
  decide_eq_true_iff

theorem hit2_iff : s.hit2 ip ↔ (s.deref (.t2 (s.idx2 ip))).tag = s.tag2 ip :=
  decide_eq_true_iff

/-- The provider is an entry that hits, and the highest of them. -/
theorem provider_eq_some_iff : s.provider ip = some p ↔
    p = .t2 (s.idx2 ip) ∧ s.hit2 ip = true ∨
      p = .t1 (s.idx1 ip) ∧ s.hit1 ip = true ∧ s.hit2 ip = false := by
  unfold State.provider
  cases s.hit2 ip <;> cases s.hit1 ip <;> simp [eq_comm]

theorem provider_hits (h : s.provider ip = some p) : (s.deref p).tag = s.tagOf ip p := by
  rcases provider_eq_some_iff.mp h with ⟨rfl, h2⟩ | ⟨rfl, h1, -⟩
  · exact hit2_iff.mp h2
  · exact hit1_iff.mp h1

theorem provider_looksUp (h : s.provider ip = some p) : s.LooksUp ip p := by
  rcases provider_eq_some_iff.mp h with ⟨rfl, -⟩ | ⟨rfl, -, -⟩
  · exact Or.inr rfl
  · exact Or.inl rfl

/-- The update of the provider writes the provider. -/
theorem deref_updated (s : State) (ip : ADDRINT) (actual : Bool) (p : Pointer) :
    (s.updated ip actual).deref p =
      if s.provider ip = some p then updateEntry (s.deref p) (s.prediction ip) actual
      else s.deref p := by
  unfold State.updated updateProvider
  cases hq : s.provider ip with
  | none => rfl
  | some q =>
      by_cases hqp : q = p
      · simp only [Tables.deref_assign, hqp, if_true]
      · simp only [Tables.deref_assign, hqp, Option.some_inj, if_false]

/-- **The tests of the allocation see what the entries held before the event.** -/
theorem allocated_eq (s : State) (ip : ADDRINT) (actual : Bool) :
    s.allocated ip actual =
      if s.prediction ip ≠ actual then
        if s.hit2 ip = false ∧ (s.deref (.t2 (s.idx2 ip))).u = 0 then some (.t2 (s.idx2 ip))
        else if s.hit1 ip = false ∧ (s.deref (.t1 (s.idx1 ip))).u = 0 then
          some (.t1 (s.idx1 ip))
        else none
      else none := by
  unfold State.allocated
  rw [deref_updated, deref_updated]
  -- the provider is tested by neither
  cases h2 : s.hit2 ip with
  | true => simp [State.provider, h2]
  | false => cases h1 : s.hit1 ip <;> simp [State.provider, h1, h2]

/-- What is allocated was mispredicted, missed and not protected, and it is not
the provider. -/
theorem allocated_spec (h : s.allocated ip actual = some p) :
    s.prediction ip ≠ actual ∧ s.LooksUp ip p ∧ (s.deref p).tag ≠ s.tagOf ip p ∧
      (s.deref p).u = 0 ∧ s.provider ip ≠ some p := by
  rw [allocated_eq] at h
  split at h
  · next hwrong =>
      have hprovider : ∀ {p}, (s.deref p).tag ≠ s.tagOf ip p → s.provider ip ≠ some p :=
        fun hmiss hp => hmiss (provider_hits hp)
      split at h
      · next hroom =>
          obtain rfl := Option.some.inj h
          have hmiss := hit2_iff.not.mp (Bool.eq_false_iff.mp hroom.1)
          exact ⟨hwrong, Or.inr rfl, hmiss, hroom.2, hprovider hmiss⟩
      · split at h
        · next hroom =>
            obtain rfl := Option.some.inj h
            have hmiss := hit1_iff.not.mp (Bool.eq_false_iff.mp hroom.1)
            exact ⟨hwrong, Or.inl rfl, hmiss, hroom.2, hprovider hmiss⟩
        · cases h
  · cases h

/-- The allocation writes the entry allocated. -/
theorem trained_eq (s : State) (ip : ADDRINT) (actual : Bool) :
    s.trained ip actual =
      match s.allocated ip actual with
      | some p => (s.updated ip actual).assign p (newEntry (s.tagOf ip p) actual)
      | none => s.updated ip actual := by
  unfold State.trained State.allocated allocate
  split
  · have hroom1 : (s.updated ip actual).t1[s.idx1 ip] =
        (s.updated ip actual).deref (.t1 (s.idx1 ip)) := rfl
    have hroom2 : (s.updated ip actual).t2[s.idx2 ip] =
        (s.updated ip actual).deref (.t2 (s.idx2 ip)) := rfl
    rw [hroom1, hroom2]
    split
    · rfl
    · split <;> rfl
  · rfl

/-- **What becomes of an entry**: it is allocated, trained or left alone. -/
theorem deref_trained (s : State) (ip : ADDRINT) (actual : Bool) (p : Pointer) :
    (s.trained ip actual).deref p =
      if s.allocated ip actual = some p then newEntry (s.tagOf ip p) actual
      else if s.provider ip = some p then updateEntry (s.deref p) (s.prediction ip) actual
      else s.deref p := by
  rw [trained_eq, ← deref_updated]
  cases hq : s.allocated ip actual with
  | none => rfl
  | some q =>
      simp only [Tables.deref_assign, Option.some_inj]
      by_cases hqp : q = p
      · rw [if_pos hqp, if_pos hqp, hqp]
      · rw [if_neg hqp, if_neg hqp]

theorem deref_trained_of_allocated (h : s.allocated ip actual = some p) :
    (s.trained ip actual).deref p = newEntry (s.tagOf ip p) actual := by
  rw [deref_trained, if_pos h]

theorem deref_trained_of_provider (h : s.provider ip = some p) :
    (s.trained ip actual).deref p = updateEntry (s.deref p) (s.prediction ip) actual := by
  have hnot : s.allocated ip actual ≠ some p := fun ha => (allocated_spec ha).2.2.2.2 h
  rw [deref_trained, if_neg hnot, if_pos h]

theorem deref_trained_of_neither (ha : s.allocated ip actual ≠ some p)
    (hp : s.provider ip ≠ some p) : (s.trained ip actual).deref p = s.deref p := by
  rw [deref_trained, if_neg ha, if_neg hp]

/-- Only the entry allocated gets a tag. -/
theorem tag_trained (s : State) (ip : ADDRINT) (actual : Bool) (p : Pointer) :
    ((s.trained ip actual).deref p).tag =
      if s.allocated ip actual = some p then s.tagOf ip p else (s.deref p).tag := by
  rw [deref_trained]
  split_ifs <;> rfl

end

/-! ## The halving -/

namespace TageEntry

variable (entry : TageEntry) (due : Bool)

@[simp] theorem counter_halve : (entry.halve due).counter = entry.counter := by
  cases due <;> rfl

@[simp] theorem taken_halve : (entry.halve due).taken = entry.taken := by
  rw [taken, counter_halve, taken]

theorem toNat_u_halve :
    (entry.halve due).u.toNat = if due then entry.u.toNat / 2 else entry.u.toNat := by
  have hgauge := congrArg Gauge.u (gauge_halve entry due)
  rwa [Gauge.u_halve] at hgauge

theorem u_halve_of_zero (h : entry.u = 0) : (entry.halve due).u = 0 := by
  cases due with
  | true => simp [halve, h]
  | false => exact h

theorem taken_newEntry (tag : UInt16) (actual : Bool) : (newEntry tag actual).taken = actual := by
  cases actual <;> rfl

end TageEntry

theorem Tables.Valid.deref {T : Tables} (h : T.Valid) (p : Pointer) : (T.deref p).Valid := by
  cases p with
  | t1 i => exact h.t1 i
  | t2 i => exact h.t2 i

section

variable {range : Range} {e : Event} (h : range.Contains e.ip) (s : State)
include h

/-- An entry after an event: what the training and the allocation left, halved
if the halving is due. -/
theorem deref_step (p : Pointer) : (step range s e).deref p =
    ((s.trained e.ip e.isTaken).deref p).halve ((s.clock + 1) % 1024 = 0) := by
  have htrained : s.trained e.ip e.isTaken = _ := allocate_updateProvider s e.ip e.isTaken
  have htables : (step range s e).toTables =
      if (s.clock + 1) % 1024 = 0 then age (s.trained e.ip e.isTaken)
      else s.trained e.ip e.isTaken := by
    rw [tables_step h, htrained]
  rw [htables]
  by_cases hclock : (s.clock + 1) % 1024 = 0
  · simp [hclock, deref_age]
  · simp [hclock]

end

/-! ## The write set -/

/-- What one event changes in the tables: the provider and at most one entry
allocated. -/
structure WriteSet (s s' : State) (e : Event) (due : Bool) : Prop where
  changed : ∀ p, ((s'.deref p).tag, (s'.deref p).counter) ≠ ((s.deref p).tag, (s.deref p).counter) →
    s.provider e.ip = some p ∨ s.allocated e.ip e.isTaken = some p
  provider : ∀ p, s.provider e.ip = some p → (s'.deref p).tag = (s.deref p).tag ∧
    (s'.deref p).counter.toInt =
      if e.isTaken then min ((s.deref p).counter.toInt + 1) 3
      else max ((s.deref p).counter.toInt - 1) (-2)
  /-- An entry is allocated for a misprediction its lookup missed, and was not protected. -/
  allocated_only : ∀ p, s.allocated e.ip e.isTaken = some p → s.prediction e.ip ≠ e.isTaken ∧
    s.LooksUp e.ip p ∧ (s.deref p).tag ≠ s.tagOf e.ip p ∧ (s.deref p).u = 0 ∧
    s.provider e.ip ≠ some p
  allocated : ∀ p, s.allocated e.ip e.isTaken = some p → (s'.deref p).tag = s.tagOf e.ip p ∧
    (s'.deref p).taken = e.isTaken ∧ (s'.deref p).u = 0
  shielded : ∀ p, 0 < (s.deref p).u → (s'.deref p).tag = (s.deref p).tag
  other : ∀ p, s.provider e.ip ≠ some p → s.allocated e.ip e.isTaken ≠ some p →
    s'.deref p = (s.deref p).halve due
  base : ∀ ip, ip ≠ e.ip → s'.t0[ip]? = s.t0[ip]?

/-- **The write set of an event.**  From every reachable state an event in range
writes its provider and at most one entry it allocates; every thousand and
twenty-fourth event halves the usefulness of all. -/
theorem write_set (range : Range) (es : List Event) (e : Event) (h : range.Contains e.ip) :
    WriteSet (run range es {}) (step range (run range es {}) e) e
      (((range.path es).length + 1) % 1024 = 0) := by
  have hvalid := valid_run range es
  have hclock := (counters_run range es).2.2.1
  generalize run range es {} = s at *
  have hstep := deref_step h s
  rw [hclock] at hstep
  have hother : ∀ p, s.provider e.ip ≠ some p → s.allocated e.ip e.isTaken ≠ some p →
      (step range s e).deref p = (s.deref p).halve (((range.path es).length + 1) % 1024 = 0) := by
    intro p hp ha
    rw [hstep, deref_trained_of_neither ha hp]
  exact
    { changed := by
        intro p hchanged
        by_contra hnone
        rw [not_or] at hnone
        rw [hother p hnone.1 hnone.2, TageEntry.tag_halve, TageEntry.counter_halve] at hchanged
        exact hchanged rfl
      provider := by
        intro p hp
        rw [hstep, deref_trained_of_provider hp, TageEntry.tag_halve, TageEntry.counter_halve]
        exact ⟨rfl, TageEntry.toInt_updateEntry (hvalid.deref p) _ _⟩
      allocated_only := fun p ha => allocated_spec ha
      allocated := by
        intro p ha
        rw [hstep, deref_trained_of_allocated ha, TageEntry.tag_halve, TageEntry.taken_halve]
        exact ⟨rfl, TageEntry.taken_newEntry _ _, TageEntry.u_halve_of_zero _ _ rfl⟩
      shielded := by
        intro p hu
        have hnot : s.allocated e.ip e.isTaken ≠ some p := fun ha =>
          (UInt8.ne_of_lt hu).symm (allocated_spec ha).2.2.2.1
        rw [hstep, TageEntry.tag_halve, tag_trained, if_neg hnot]
      other := hother
      base := by
        intro ip hip
        have hslice := congrArg Slice.t0 (slice_step_of_contains h s ip)
        rw [if_neg hip.symm] at hslice
        exact hslice }

/-- The second event of a branch, mispredicted like the first. -/
theorem write_set_second :
    WriteSet (run ⟨0, 100⟩ [⟨4, 0, false⟩] {}) (step ⟨0, 100⟩ (run ⟨0, 100⟩ [⟨4, 0, false⟩] {})
      ⟨4, 0, true⟩) ⟨4, 0, true⟩
      (((Range.path ⟨0, 100⟩ [⟨4, 0, false⟩]).length + 1) % 1024 = 0) :=
  write_set _ _ _ (by decide)

end BranchPrediction.MyTage
