import BranchPrediction.MyTage.Step

/-!
# What a lookup depends on

`GHR` is a register of the last sixteen outcomes of a run, whatever branches
they belong to, and `RecordBranch` looks a branch up in `T1` by the last eight
of them and in `T2` by all sixteen.  A lookup is an index and a tag; together
they lose nothing of the history (`context_resolved`), although the tag alone
does.
-/

namespace BranchPrediction.MyTage

open Automata

/-- A step of the tool shifts the register, or leaves it if the event is skipped. -/
theorem toNat_ghr_run (range : Range) (es : List Event) :
    (run range es {}).ghr.toNat = register 16 (range.path es) := by
  induction es using List.reverseRecOn with
  | nil => rfl
  | append_singleton es e ih =>
      rw [run_concat]
      by_cases h : range.Contains e.ip
      · rw [range.path_concat_of_contains es h, register_concat, ← ih]
        exact toNat_ghr_step h _
      · rw [range.path_concat_of_not_contains es h, ← ih]
        exact congrArg (fun s : State => s.ghr.toNat) (step_of_not_contains h _)

/-! ## Index and tag of a history -/

theorem toNat_hist1 : hist1.toNat = 8 := rfl

theorem toNat_hist2 : hist2.toNat = 16 := rfl

theorem val_idx1 (s : State) (ip : ADDRINT) :
    (s.idx1 ip : ℕ) = addressIndex ip ^^^ historyIndex (s.ghr.toNat % 2 ^ 8) :=
  toNat_getIndex toNat_hist1 (by decide) ip s.ghr

theorem val_idx2 (s : State) (ip : ADDRINT) :
    (s.idx2 ip : ℕ) = addressIndex ip ^^^ historyIndex (s.ghr.toNat % 2 ^ 16) :=
  toNat_getIndex toNat_hist2 (by decide) ip s.ghr

theorem toNat_tag1 (s : State) (ip : ADDRINT) :
    (s.tag1 ip).toNat = addressTag ip ^^^ historyTag (s.ghr.toNat % 2 ^ 8) :=
  toNat_getTag toNat_hist1 (by decide) ip s.ghr

theorem toNat_tag2 (s : State) (ip : ADDRINT) :
    (s.tag2 ip).toNat = addressTag ip ^^^ historyTag (s.ghr.toNat % 2 ^ 16) :=
  toNat_getTag toNat_hist2 (by decide) ip s.ghr

/-- Seen from one address, index and tag are equal only for equal histories. -/
theorem xor_injective {h h' : ℕ} (hh : h < 2 ^ 16) (hh' : h' < 2 ^ 16) (a t : ℕ) :
    (a ^^^ historyIndex h = a ^^^ historyIndex h' ∧ t ^^^ historyTag h = t ^^^ historyTag h') ↔
      h = h' := by
  constructor
  · rintro ⟨hindex, htag⟩
    exact history_injective hh hh' (Nat.xor_right_injective htag) (Nat.xor_right_injective hindex)
  · rintro rfl
    exact ⟨rfl, rfl⟩

theorem lookup1_eq_iff (s s' : State) (ip : ADDRINT) :
    (s.idx1 ip, s.tag1 ip) = (s'.idx1 ip, s'.tag1 ip) ↔
      s.ghr.toNat % 2 ^ 8 = s'.ghr.toNat % 2 ^ 8 := by
  rw [Prod.mk.injEq, Fin.ext_iff, ← UInt16.toNat_inj, val_idx1, val_idx1, toNat_tag1, toNat_tag1]
  exact xor_injective (by omega) (by omega) _ _

theorem lookup2_eq_iff (s s' : State) (ip : ADDRINT) :
    (s.idx2 ip, s.tag2 ip) = (s'.idx2 ip, s'.tag2 ip) ↔
      s.ghr.toNat % 2 ^ 16 = s'.ghr.toNat % 2 ^ 16 := by
  rw [Prod.mk.injEq, Fin.ext_iff, ← UInt16.toNat_inj, val_idx2, val_idx2, toNat_tag2, toNat_tag2]
  exact xor_injective (by omega) (by omega) _ _

/-- **Each context is resolved exactly.**  After any two runs, an address is
looked up in `T1` under the same index and tag exactly if the last eight
outcomes agree, and in `T2` exactly if the last sixteen do; and the indices stay
inside the tables. -/
theorem context_resolved (range range' : Range) (es es' : List Event) (ip : ADDRINT) :
    let s := run range es {}
    let s' := run range' es' {}
    ((s.idx1 ip, s.tag1 ip) = (s'.idx1 ip, s'.tag1 ip) ↔
        lastInputs 8 (range.path es) = lastInputs 8 (range'.path es')) ∧
      ((s.idx2 ip, s.tag2 ip) = (s'.idx2 ip, s'.tag2 ip) ↔
        lastInputs 16 (range.path es) = lastInputs 16 (range'.path es')) ∧
      (getIndex ip s.ghr hist1 t1Size).toNat < 512 ∧
      (getIndex ip s.ghr hist2 t2Size).toNat < 512 := by
  intro s s'
  refine ⟨?_, ?_, getIndex_lt ip s.ghr hist1, getIndex_lt ip s.ghr hist2⟩
  · rw [lookup1_eq_iff, toNat_ghr_run, toNat_ghr_run, register_mod (by decide),
      register_mod (by decide), register_eq_iff]
  · rw [lookup2_eq_iff, toNat_ghr_run, toNat_ghr_run, register_mod le_rfl,
      register_mod le_rfl, register_eq_iff]

end BranchPrediction.MyTage
