import Mathlib.Algebra.BigOperators.Fin
import Mathlib.Order.Interval.Finset.Fin
import Mathlib.Logic.Equiv.Basic
import Mathlib.Order.Fin.Basic

/-!
# Inversions

The pairs of positions of a sequence whose values are the wrong way round.  To swap
two neighbours that are is to have one such pair less (`card_inversions_swap`), so a
sort that makes no other swaps makes exactly as many as there are inversions.
-/

namespace BranchPrediction.Sorting

variable {α : Type*} [LinearOrder α] {n : ℕ}

/-- The pairs of positions whose values are the wrong way round. -/
def inversions (f : Fin n → α) : Finset (Fin n × Fin n) :=
  Finset.univ.filter fun p => p.1 < p.2 ∧ f p.2 < f p.1

theorem mem_inversions {f : Fin n → α} {a b : Fin n} :
    (a, b) ∈ inversions f ↔ a < b ∧ f b < f a := by
  simp [inversions]

theorem monotone_iff_inversions {f : Fin n → α} : Monotone f ↔ inversions f = ∅ := by
  rw [Finset.eq_empty_iff_forall_notMem, Prod.forall]
  simp only [mem_inversions]
  constructor
  · rintro h a b ⟨hab, hlt⟩
    exact hlt.not_ge (h hab.le)
  · intro h a b hab
    rcases hab.eq_or_lt with rfl | hlt
    · exact le_rfl
    · exact not_lt.mp fun hf => h a b ⟨hlt, hf⟩

/-- The pairs of positions. -/
def pairs (n : ℕ) : Finset (Fin n × Fin n) :=
  Finset.univ.filter fun p => p.1 < p.2

theorem card_pairs (n : ℕ) : (pairs n).card = ∑ i ∈ Finset.range n, (n - 1 - i) := by
  rw [pairs, Finset.card_filter, Fintype.sum_prod_type,
    ← Fin.sum_univ_eq_sum_range fun i => n - 1 - i]
  apply Finset.sum_congr rfl
  intro a _
  rw [← Fin.card_Ioi, ← Finset.card_filter]
  congr 1
  ext b
  simp

section

variable {i j : Fin n} (hij : (j : ℕ) = i + 1)
include hij

/-- Only the two neighbours change places. -/
theorem swap_lt_swap_iff {a b : Fin n} (h : ¬ (a = i ∧ b = j)) (h' : ¬ (a = j ∧ b = i)) :
    Equiv.swap i j a < Equiv.swap i j b ↔ a < b := by
  have heq : ∀ c d : Fin n, c = d ↔ (c : ℕ) = d := fun c d => Fin.ext_iff
  simp only [heq] at h h'
  rw [Fin.lt_def, Fin.lt_def, Equiv.swap_apply_def, Equiv.swap_apply_def]
  split_ifs <;> simp_all <;> omega

theorem card_inversions_swap {f : Fin n → α} (hf : f j < f i) :
    (inversions (f ∘ Equiv.swap i j)).card + 1 = (inversions f).card := by
  have hlt : i < j := Fin.lt_def.mpr (by omega)
  have hmem : (i, j) ∈ inversions f := mem_inversions.mpr ⟨hlt, hf⟩
  have himage : (inversions (f ∘ Equiv.swap i j)).map
      ((Equiv.swap i j).prodCongr (Equiv.swap i j)).toEmbedding = (inversions f).erase (i, j) := by
    ext ⟨a, b⟩
    rw [Finset.mem_map_equiv, Finset.mem_erase]
    have hsymm : ((Equiv.swap i j).prodCongr (Equiv.swap i j)).symm (a, b) =
        (Equiv.swap i j a, Equiv.swap i j b) := rfl
    rw [hsymm, mem_inversions, mem_inversions]
    simp only [Function.comp_apply, Equiv.swap_apply_self]
    by_cases h : a = i ∧ b = j
    · simp [h, hlt.le]
    · by_cases h' : a = j ∧ b = i
      · simp [h', hlt.not_gt, hf.not_gt]
      · rw [swap_lt_swap_iff hij h h']
        simp [h]
  rw [← Finset.card_map, himage, Finset.card_erase_add_one hmem]

end

end BranchPrediction.Sorting
