import BranchPrediction.Automata.Decay
import BranchPrediction.MyTage.Writes

/-!
# What becomes of an entry that is not used

An entry that never provides is never trained, so its usefulness moves with the
halvings alone, and it keeps its tag and its counter as long as there is any
usefulness left: the allocation tests come before the halving of the same event.
Of two it lasts for a thousand and twenty-four events, wherever the clock stands,
and after twice as many it is gone.

Other entries may hit or miss meanwhile, and this one may be looked up and hit
itself, behind a provider in `T2`.
-/

namespace BranchPrediction.MyTage

open Automata

/-- The entry is not the provider of any event of a continuation. -/
def Idle (range : Range) (s : State) (p : Pointer) (cs : List Event) : Prop :=
  ∀ past e, past ++ [e] <+: cs → range.Contains e.ip →
    (run range past s).provider e.ip ≠ some p

variable {range : Range} {s : State} {e : Event} {p : Pointer} {cs : List Event}

theorem idle_nil (range : Range) (s : State) (p : Pointer) : Idle range s p [] :=
  fun _ _ hprefix => absurd hprefix not_concat_prefix_nil

theorem idle_concat : Idle range s p (cs ++ [e]) ↔
    Idle range s p cs ∧ (range.Contains e.ip → (run range cs s).provider e.ip ≠ some p) :=
  forall_prefix_concat_iff

/-! ## One event -/

/-- The usefulness of an entry that does not provide is halved by the clock, and
does nothing else: an allocation finds it at zero and leaves it there. -/
theorem u_step_of_idle (he : range.Contains e.ip) (hp : s.provider e.ip ≠ some p) :
    ((step range s e).deref p).u.toNat =
      if (s.clock + 1) % 1024 = 0 then (s.deref p).u.toNat / 2 else (s.deref p).u.toNat := by
  have hu : ((s.trained e.ip e.isTaken).deref p).u = (s.deref p).u := by
    by_cases ha : s.allocated e.ip e.isTaken = some p
    · rw [deref_trained_of_allocated ha, (allocated_spec ha).2.2.2.1]
      rfl
    · rw [deref_trained_of_neither ha hp]
  rw [deref_step he, TageEntry.toNat_u_halve, hu]
  simp only [decide_eq_true_eq]

/-- As long as it has any usefulness nothing else of it moves. -/
theorem kept_step_of_idle (he : range.Contains e.ip) (hp : s.provider e.ip ≠ some p)
    (hu : (s.deref p).u ≠ 0) : ((step range s e).deref p).tag = (s.deref p).tag ∧
      ((step range s e).deref p).counter = (s.deref p).counter := by
  have hnot : s.allocated e.ip e.isTaken ≠ some p := fun ha => hu (allocated_spec ha).2.2.2.1
  rw [deref_step he, deref_trained_of_neither hnot hp, TageEntry.tag_halve,
    TageEntry.counter_halve]
  exact ⟨rfl, rfl⟩

/-! ## A continuation -/

theorem clock_run (range : Range) (s : State) (cs : List Event) :
    (run range cs s).clock = s.clock + (range.path cs).length := by
  induction cs using List.reverseRecOn with
  | nil => rfl
  | append_singleton cs e ih =>
      rw [run_concat]
      by_cases he : range.Contains e.ip
      · rw [range.length_path_concat_of_contains cs he, ← Nat.add_assoc, ← ih]
        exact (counters_step he _).2.2.1
      · rw [range.path_concat_of_not_contains cs he, ← ih]
        exact congrArg State.clock (step_of_not_contains he _)

/-- The usefulness of an idle entry decays. -/
theorem u_run_of_idle (h : Idle range s p cs) :
    ((run range cs s).deref p).u.toNat =
      decayed 1024 s.clock (range.path cs).length (s.deref p).u.toNat := by
  induction cs using List.reverseRecOn with
  | nil => exact (decayed_zero _ _).symm
  | append_singleton cs e ih =>
      obtain ⟨hcs, hlast⟩ := idle_concat.mp h
      rw [run_concat]
      by_cases he : range.Contains e.ip
      · rw [range.length_path_concat_of_contains cs he, decayed_succ,
          u_step_of_idle he (hlast he), ih hcs, clock_run]
      · rw [range.path_concat_of_not_contains cs he, step_of_not_contains he, ih hcs]

/-- What is left of the usefulness keeps the tag and the counter. -/
theorem kept_run_of_idle (h : Idle range s p cs)
    (hu : 0 < decayed 1024 s.clock (range.path cs).length (s.deref p).u.toNat) :
    ((run range cs s).deref p).tag = (s.deref p).tag ∧
      ((run range cs s).deref p).counter = (s.deref p).counter := by
  induction cs using List.reverseRecOn with
  | nil => exact ⟨rfl, rfl⟩
  | append_singleton cs e ih =>
      obtain ⟨hcs, hlast⟩ := idle_concat.mp h
      rw [run_concat]
      by_cases he : range.Contains e.ip
      · rw [range.length_path_concat_of_contains cs he] at hu
        have hbefore := hu.trans_le (decayed_succ_le _ _ _)
        have hpos : ((run range cs s).deref p).u ≠ 0 := by
          intro hzero
          rw [← u_run_of_idle hcs, hzero] at hbefore
          exact Nat.lt_irrefl _ hbefore
        obtain ⟨htag, hcounter⟩ := kept_step_of_idle he (hlast he) hpos
        rw [htag, hcounter]
        exact ih hcs hbefore
      · rw [range.path_concat_of_not_contains cs he] at hu
        rw [step_of_not_contains he]
        exact ih hcs hu

/-- **Aging neither strands nor drops entries too early.**  From every reachable
state, an entry that does not provide keeps its tag and its counter for a
thousand and twenty-four events if its usefulness is at least two, and has no
usefulness left after two thousand and forty-eight. -/
theorem idle_entry_ages (range : Range) (es : List Event) (p : Pointer) (cs : List Event)
    (h : Idle range (run range es {}) p cs) :
    let s := run range es {}
    let s' := run range cs s
    (2 ≤ (s.deref p).u → (range.path cs).length ≤ 1024 →
        (s'.deref p).tag = (s.deref p).tag ∧ (s'.deref p).counter = (s.deref p).counter) ∧
      (2048 ≤ (range.path cs).length → (s'.deref p).u = 0) := by
  intro s s'
  constructor
  · intro hu hshort
    apply kept_run_of_idle h
    have htwo : 2 ≤ (s.deref p).u.toNat := UInt8.le_iff_toNat_le.mp hu
    calc 0 < (s.deref p).u.toNat / 2 := by omega
      _ ≤ decayed 1024 s.clock (range.path cs).length (s.deref p).u.toNat :=
          half_le_decayed _ (by decide) hshort
  · intro hlong
    have hle : (s.deref p).u.toNat ≤ 3 := ((valid_run range es).deref p).u_le
    have hzero : (s'.deref p).u.toNat = 0 := by
      rw [u_run_of_idle h, ← Nat.le_zero]
      calc decayed 1024 s.clock (range.path cs).length (s.deref p).u.toNat
          ≤ (s.deref p).u.toNat / 4 := decayed_le_quarter _ (by decide) hlong
        _ ≤ 0 := by omega
    rwa [← UInt8.toNat_inj]

/-- Three executions of branch 4 leave a usefulness of two in `T2`; branch 8 does
not touch it. -/
theorem idle_entry_ages_three :
    let s := run ⟨0, 100⟩ (List.replicate 3 ⟨4, 0, false⟩) {}
    let s' := run ⟨0, 100⟩ [⟨8, 0, false⟩] s
    let p : Pointer := .t2 (State.idx2 {} 4)
    (s'.deref p).tag = (s.deref p).tag ∧ (s'.deref p).counter = (s.deref p).counter :=
  (idle_entry_ages ⟨0, 100⟩ (List.replicate 3 ⟨4, 0, false⟩) (.t2 (State.idx2 {} 4))
    [⟨8, 0, false⟩] (idle_concat.mpr ⟨idle_nil _ _ _, fun _ => by decide +kernel⟩)).1
    (by decide +kernel) (by decide)

end BranchPrediction.MyTage
