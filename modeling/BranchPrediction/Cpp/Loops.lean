import Mathlib.Data.List.Nodup
import Mathlib.Data.List.Range

/-!
# Loops that can fail

A loop runs its body for one index after the other.  Where the body can have no
result, the loop is `foldlM`, and it has a result if the body has one in every
state that the loop comes through.
-/

namespace BranchPrediction.Cpp

variable {σ α : Type*}

theorem foldlM_concat {body : σ → α → Option σ} {is : List α} {i : α} {s s' : σ}
    (h : is.foldlM body s = some s') : (is ++ [i]).foldlM body s = body s' i := by
  rw [List.foldlM_append, h]
  simp

/-- A loop, by an invariant of the indices it is done with. -/
theorem exists_foldlM {body : σ → α → Option σ} {indices : List α} {s : σ} (I : List α → σ → Prop)
    (hstart : I [] s) (hbody : ∀ done i s, done ++ [i] <+: indices → I done s →
      ∃ s', body s i = some s' ∧ I (done ++ [i]) s') :
    ∃ s', indices.foldlM body s = some s' ∧ I indices s' := by
  induction indices using List.reverseRecOn with
  | nil => exact ⟨s, rfl, hstart⟩
  | append_singleton is i ih =>
      obtain ⟨s', hs', h'⟩ := ih fun done j s hdone =>
        hbody done j s (hdone.trans (List.prefix_append is [i]))
      obtain ⟨s'', hs'', h''⟩ := hbody is i s' List.prefix_rfl h'
      exact ⟨s'', (foldlM_concat hs').trans hs'', h''⟩

/-- A loop that counts, by an invariant of the count. -/
theorem exists_foldlM_range {body : σ → ℕ → Option σ} {n : ℕ} {s : σ} (I : ℕ → σ → Prop)
    (hstart : I 0 s)
    (hbody : ∀ i < n, ∀ s, I i s → ∃ s', body s i = some s' ∧ I (i + 1) s') :
    ∃ s', (List.range n).foldlM body s = some s' ∧ I n s' := by
  induction n with
  | zero => exact ⟨s, rfl, hstart⟩
  | succ n ih =>
      obtain ⟨s', hs', h'⟩ := ih fun i hi => hbody i (by omega)
      obtain ⟨s'', hs'', h''⟩ := hbody n n.lt_succ_self s' h'
      rw [List.range_succ]
      exact ⟨s'', (foldlM_concat hs').trans hs'', h''⟩

/-- An index that is not done with. -/
theorem notMem_of_prefix {indices done : List α} {i : α} (hindices : indices.Nodup)
    (h : done ++ [i] <+: indices) : i ∉ done := by
  have hdone := hindices.sublist h.sublist
  rw [List.nodup_append] at hdone
  exact fun hi => hdone.2.2 i hi i (List.mem_singleton_self i) rfl

end BranchPrediction.Cpp
