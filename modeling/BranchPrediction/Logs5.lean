import BranchPrediction.Cpp.Int
import BranchPrediction.Cpp.Loops
import BranchPrediction.Graph.Search
import Mathlib.Data.Fin.VecNotation
import Mathlib.Data.Fintype.Card
import Mathlib.Data.Int.Order.Basic
import Mathlib.Order.Lattice.Nat
import Mathlib.Tactic.Linarith
import Mathlib.Tactic.Ring

/-!
# `logs5.cpp`

The last workload is Dijkstra's algorithm on an adjacency matrix, where an entry
of zero is no edge and `INT_MAX` is the distance of what is not reached.  The
arrays of the program are functions of the vertices, and `V`, which the program
defines as 9, is any number of them.

What the language leaves undefined has no result here: a sum of two `int`s that
does not fit one, and the index that `minDistance` returns without having set it.
-/

namespace BranchPrediction.Logs5

open Cpp (add)

variable {V : ℕ}

/-- `INT_MAX`. -/
def intMax : Int32 := 2147483647

/-- The body of the loop of `minDistance`, on `min` and `min_index`. -/
def nearer (dist : Fin V → Int32) (sptSet : Fin V → Bool) (best : Int32 × Option (Fin V))
    (v : Fin V) : Int32 × Option (Fin V) :=
  if sptSet v = false ∧ dist v ≤ best.1 then (dist v, some v) else best

/-- `minDistance`. -/
def minDistance (dist : Fin V → Int32) (sptSet : Fin V → Bool) : Option (Fin V) :=
  ((List.finRange V).foldl (nearer dist sptSet) (intMax, none)).2

/-- The update of `dist[v]` by way of a vertex that was picked. -/
def relax (graph : Fin V → Fin V → Int32) (sptSet : Fin V → Bool) (u : Fin V)
    (dist : Fin V → Int32) (v : Fin V) : Option (Fin V → Int32) :=
  if sptSet v = false ∧ graph u v ≠ 0 ∧ dist u ≠ intMax then do
    let d ← add (dist u) (graph u v)
    if d < dist v then some (Function.update dist v d) else some dist
  else some dist

/-- The arrays of `dijkstra`. -/
structure State (V : ℕ) where
  dist : Fin V → Int32
  sptSet : Fin V → Bool

/-- The body of the outer loop. -/
def visit (graph : Fin V → Fin V → Int32) (s : State V) : Option (State V) := do
  let u ← minDistance s.dist s.sptSet
  let sptSet := Function.update s.sptSet u true
  let dist ← (List.finRange V).foldlM (relax graph sptSet u) s.dist
  some ⟨dist, sptSet⟩

/-- The outer loop. -/
def visits (graph : Fin V → Fin V → Int32) : ℕ → State V → Option (State V)
  | 0, s => some s
  | count + 1, s => do visits graph count (← visit graph s)

/-- The arrays as they are initialized. -/
def start (src : Fin V) : State V where
  dist := Function.update (fun _ => intMax) src 0
  sptSet := fun _ => false

/-- What the loop has found among the vertices so far. -/
structure Nearest (dist : Fin V → Int32) (sptSet : Fin V → Bool) (vs : List (Fin V))
    (best : Int32 × Option (Fin V)) : Prop where
  none : best.2 = none → best.1 = intMax ∧ ∀ v ∈ vs, sptSet v = true
  some : ∀ u, best.2 = some u → best.1 = dist u ∧ sptSet u = false ∧
    ∀ v ∈ vs, sptSet v = false → (dist u).toInt ≤ (dist v).toInt

section

variable (dist : Fin V → Int32) (sptSet : Fin V → Bool)

theorem nearest_foldl (vs : List (Fin V)) :
    Nearest dist sptSet vs (vs.foldl (nearer dist sptSet) (intMax, none)) := by
  induction vs using List.reverseRecOn with
  | nil => exact ⟨fun _ => ⟨rfl, nofun⟩, nofun⟩
  | append_singleton vs v ih =>
      rw [List.foldl_concat]
      generalize vs.foldl (nearer dist sptSet) (intMax, none) = best at ih
      unfold nearer
      simp only [Int32.le_iff_toInt_le]
      split
      · next h =>
          refine ⟨nofun, ?_⟩
          rintro u hu
          obtain rfl := Option.some.inj hu
          refine ⟨rfl, h.1, ?_⟩
          intro v' hv' hfree
          rcases List.mem_append.mp hv' with hv' | hv'
          · cases hbest : best.2 with
            | none => exact absurd ((ih.none hbest).2 v' hv') (by simp [hfree])
            | some u =>
                obtain ⟨hmin, -, hle⟩ := ih.some u hbest
                exact h.2.trans (hmin ▸ hle v' hv' hfree)
          · rw [List.mem_singleton.mp hv']
      · next h =>
          refine ⟨?_, ?_⟩
          · intro hbest
            obtain ⟨hmin, hvs⟩ := ih.none hbest
            refine ⟨hmin, ?_⟩
            rw [List.forall_mem_append, List.forall_mem_singleton]
            refine ⟨hvs, ?_⟩
            by_contra hv
            exact h ⟨eq_false_of_ne_true hv, hmin ▸ (dist v).toInt_le⟩
          · intro u hbest
            obtain ⟨hmin, hu, hle⟩ := ih.some u hbest
            refine ⟨hmin, hu, ?_⟩
            rw [List.forall_mem_append, List.forall_mem_singleton]
            refine ⟨hle, ?_⟩
            intro hfree
            rw [← hmin]
            exact le_of_not_ge fun hv => h ⟨hfree, hv⟩

/-- A nearest vertex that is not visited, as long as there is one. -/
theorem minDistance_spec {v : Fin V} (hv : sptSet v = false) :
    ∃ u, minDistance dist sptSet = some u ∧ sptSet u = false ∧
      ∀ v, sptSet v = false → (dist u).toInt ≤ (dist v).toInt := by
  have h := nearest_foldl dist sptSet (List.finRange V)
  rw [minDistance]
  cases hbest : ((List.finRange V).foldl (nearer dist sptSet) (intMax, none)).2 with
  | none =>
      have := (h.none hbest).2 v (List.mem_finRange v)
      rw [hv] at this
      cases this
  | some u =>
      obtain ⟨-, hu, hle⟩ := h.some u hbest
      exact ⟨u, rfl, hu, fun v => hle v (List.mem_finRange v)⟩

end

/-! ## Lengths -/

/-- The length that a distance stands for. -/
def length (d : Int32) : WithTop ℕ :=
  if d = intMax then ⊤ else (d.toInt.toNat : ℕ)

/-- The length of an edge. -/
def edge (x : Int32) : WithTop ℕ :=
  if x = 0 then ⊤ else (x.toInt.toNat : ℕ)

theorem toInt_intMax : intMax.toInt = 2 ^ 31 - 1 := rfl

theorem ne_intMax_iff {d : Int32} : d ≠ intMax ↔ d.toInt < 2 ^ 31 - 1 := by
  have hlt := d.toInt_lt
  have heq : d = intMax ↔ d.toInt = 2 ^ 31 - 1 := by
    rw [← Int32.toInt_inj, toInt_intMax]
  rw [ne_eq, heq]
  omega

theorem length_of_lt {d : Int32} (hd : d.toInt < 2 ^ 31 - 1) : length d = (d.toInt.toNat : ℕ) :=
  if_neg (ne_intMax_iff.mpr hd)

theorem length_le_length {a b : Int32} (ha : 0 ≤ a.toInt) (hb : 0 ≤ b.toInt) :
    length a ≤ length b ↔ a.toInt ≤ b.toInt := by
  have hlt := a.toInt_lt
  by_cases hbMax : b = intMax
  · subst hbMax
    have htop : length intMax = ⊤ := if_pos rfl
    rw [htop, toInt_intMax]
    exact iff_of_true le_top (by omega)
  · have hbLt := ne_intMax_iff.mp hbMax
    rw [length_of_lt hbLt]
    by_cases haMax : a = intMax
    · have htop : length a = ⊤ := if_pos haMax
      rw [htop, haMax, toInt_intMax]
      exact iff_of_false (WithTop.coe_lt_top _).not_ge (by omega)
    · rw [length_of_lt (ne_intMax_iff.mp haMax), Nat.cast_le]
      omega

/-- A sum that stays below `INT_MAX`. -/
theorem add_spec {x y : Int32} (hx : 0 ≤ x.toInt) (hy : 0 ≤ y.toInt)
    (hlt : x.toInt + y.toInt < 2 ^ 31 - 1) :
    add x y = some (x + y) ∧ (x + y).toInt = x.toInt + y.toInt :=
  Cpp.add_spec ⟨by omega, by omega⟩

/-! ## `relax` -/

/-- What the inner loop leaves in `dist[v]`. -/
def relaxed (graph : Fin V → Fin V → Int32) (sptSet : Fin V → Bool) (u : Fin V)
    (dist : Fin V → Int32) (v : Fin V) : Int32 :=
  if sptSet v = false ∧ graph u v ≠ 0 ∧ dist u ≠ intMax ∧ dist u + graph u v < dist v then
    dist u + graph u v
  else dist v

section

variable {graph : Fin V → Fin V → Int32} {sptSet : Fin V → Bool} {u : Fin V}
  {dist : Fin V → Int32}

theorem relaxed_eq (v : Fin V) : relaxed graph sptSet u dist v = dist v ∨
    dist u ≠ intMax ∧ relaxed graph sptSet u dist v = dist u + graph u v := by
  unfold relaxed
  split
  · next h => exact Or.inr ⟨h.2.2.1, rfl⟩
  · exact Or.inl rfl

theorem relaxed_of_visited {v : Fin V} (hv : sptSet v = true) :
    relaxed graph sptSet u dist v = dist v :=
  if_neg fun h => Bool.false_ne_true (h.1.symm.trans hv)

theorem relax_spec {dist' : Fin V → Int32} {v : Fin V} (hu : dist' u = dist u)
    (hv : dist' v = dist v)
    (hfits : dist u ≠ intMax → add (dist u) (graph u v) = some (dist u + graph u v)) :
    relax graph sptSet u dist' v =
      some (Function.update dist' v (relaxed graph sptSet u dist v)) := by
  unfold relax relaxed
  have hsame : Function.update dist' v (dist v) = dist' :=
    Function.update_eq_self_iff.mpr hv.symm
  rw [hu, hv]
  by_cases h : sptSet v = false ∧ graph u v ≠ 0 ∧ dist u ≠ intMax
  · rw [if_pos h, hfits h.2.2]
    by_cases hlt : dist u + graph u v < dist v
    · simp [h, hlt]
    · simp [hlt, hsame]
  · have h' : ¬ (sptSet v = false ∧ graph u v ≠ 0 ∧ dist u ≠ intMax ∧
        dist u + graph u v < dist v) := fun h' => h ⟨h'.1, h'.2.1, h'.2.2.1⟩
    rw [if_neg h, if_neg h', hsame]

/-- The inner loop relaxes each vertex once, from the distances it started with:
it writes no entry that it reads for another vertex. -/
theorem foldlM_relax (hu : sptSet u = true)
    (hfits : ∀ v, dist u ≠ intMax → add (dist u) (graph u v) = some (dist u + graph u v)) :
    (List.finRange V).foldlM (relax graph sptSet u) dist = some (relaxed graph sptSet u dist) := by
  let I (vs : List (Fin V)) (dist' : Fin V → Int32) : Prop :=
    ∀ v, dist' v = if v ∈ vs then relaxed graph sptSet u dist v else dist v
  have hstart : I [] dist := fun v => (if_neg List.not_mem_nil).symm
  have hbody : ∀ vs v dist', vs ++ [v] <+: List.finRange V → I vs dist' →
      ∃ dist'', relax graph sptSet u dist' v = some dist'' ∧ I (vs ++ [v]) dist'' := by
    intro vs v dist' hvs hdist'
    have hu' : dist' u = dist u := by
      rw [hdist', relaxed_of_visited hu, ite_self]
    have hv' : dist' v = dist v := by
      rw [hdist', if_neg (Cpp.notMem_of_prefix (List.nodup_finRange V) hvs)]
    refine ⟨_, relax_spec hu' hv' (hfits v), ?_⟩
    intro v'
    by_cases heq : v' = v
    · subst heq
      simp
    · rw [Function.update_of_ne heq, hdist']
      simp [heq]
  obtain ⟨dist', hloop, hdist'⟩ := Cpp.exists_foldlM I hstart hbody
  rw [hloop, Option.some.injEq]
  funext v
  rw [hdist', if_pos (List.mem_finRange v)]

end

/-- What a round does: a nearest vertex is marked, and all others are relaxed. -/
theorem visit_spec {graph : Fin V → Fin V → Int32} {s : State V} {v : Fin V}
    (hv : s.sptSet v = false) (hfits : ∀ u v, s.dist u ≠ intMax →
      add (s.dist u) (graph u v) = some (s.dist u + graph u v)) :
    ∃ s' u, visit graph s = some s' ∧ s.sptSet u = false ∧
      (∀ v, s.sptSet v = false → (s.dist u).toInt ≤ (s.dist v).toInt) ∧
      (∀ v, s'.sptSet v = true ↔ s.sptSet v = true ∨ v = u) ∧
      ∀ v, s'.dist v = relaxed graph s'.sptSet u s.dist v := by
  obtain ⟨u, hmin, hu, hle⟩ := minDistance_spec s.dist s.sptSet hv
  let sptSet := Function.update s.sptSet u true
  have hvisited : ∀ v, sptSet v = true ↔ s.sptSet v = true ∨ v = u := by
    intro v
    by_cases hvu : v = u
    · simp [sptSet, hvu]
    · simp [sptSet, hvu]
  have hloop := foldlM_relax ((hvisited u).mpr (Or.inr rfl)) (hfits u)
  refine ⟨⟨relaxed graph sptSet u s.dist, sptSet⟩, u, ?_, hu, hle, hvisited, fun _ => rfl⟩
  rw [visit, hmin]
  exact congrArg (fun dist? => dist?.bind fun dist => some (State.mk dist sptSet)) hloop

/-- The distance after the inner loop is the shorter one. -/
theorem length_relaxed {graph : Fin V → Fin V → Int32} {sptSet : Fin V → Bool} {u v : Fin V}
    {dist : Fin V → Int32} (hv : sptSet v = false) (hu : 0 ≤ (dist u).toInt)
    (hdist : 0 ≤ (dist v).toInt) (hedge : 0 ≤ (graph u v).toInt)
    (hfits : dist u ≠ intMax → (dist u).toInt + (graph u v).toInt < 2 ^ 31 - 1) :
    length (relaxed graph sptSet u dist v) =
      min (length (dist v)) (length (dist u) + edge (graph u v)) := by
  unfold relaxed
  by_cases hzero : graph u v = 0
  · simp [hzero, edge]
  · by_cases htop : dist u = intMax
    · simp [htop, length]
    · obtain ⟨-, hsum⟩ := add_spec hu hedge (hfits htop)
      have hlength : length (dist u + graph u v) = length (dist u) + edge (graph u v) := by
        have hlt := hfits htop
        rw [length_of_lt (by omega), length_of_lt (by omega), edge, if_neg hzero, hsum,
          Int.toNat_add hu hedge, Nat.cast_add]
      have hle : length (dist u + graph u v) ≤ length (dist v) ↔
          (dist u + graph u v).toInt ≤ (dist v).toInt :=
        length_le_length (by omega) hdist
      rw [← hlength]
      split
      · next h => exact (min_eq_right (hle.mpr (Int32.lt_iff_toInt_lt.mp h.2.2.2).le)).symm
      · next h =>
          have hnot : ¬ (dist u + graph u v).toInt < (dist v).toInt := fun hlt =>
            h ⟨hv, hzero, htop, Int32.lt_iff_toInt_lt.mpr hlt⟩
          exact (min_eq_left ((length_le_length hdist (by omega)).mpr (not_lt.mp hnot))).symm

/-! ## The search -/

open BranchPrediction.Graph

/-- Weights that are not negative and small enough for no distance to overflow. -/
def Moderate (graph : Fin V → Fin V → Int32) : Prop :=
  ∀ u v, 0 ≤ (graph u v).toInt ∧ ((V - 1 : ℕ) : ℤ) * (graph u v).toInt < 2 ^ 31 - 1

instance (graph : Fin V → Fin V → Int32) : Decidable (Moderate graph) :=
  inferInstanceAs (Decidable (∀ _ _, _ ∧ _))

/-- The arrays after some rounds of the outer loop. -/
structure Explored (graph : Fin V → Fin V → Int32) (src : Fin V) (count : ℕ) (s : State V) :
    Prop where
  nonneg : ∀ v, 0 ≤ (s.dist v).toInt
  bound : ∀ v, s.dist v ≠ intMax →
    ((V - 1 : ℕ) : ℤ) * (s.dist v).toInt ≤ count * (2 ^ 31 - 2)
  card : (Finset.univ.filter fun v => s.sptSet v = true).card = count
  search : Search (fun u v => edge (graph u v)) src (fun v => s.sptSet v = true)
    fun v => length (s.dist v)

section

variable {graph : Fin V → Fin V → Int32} {src : Fin V} {count : ℕ} {s : State V}

/-- No sum of a round overflows. -/
theorem Explored.sum_lt (h : Explored graph src count s) (hgraph : Moderate graph)
    (hcount : count < V - 1) {u : Fin V} (hu : s.dist u ≠ intMax) (v : Fin V) :
    ((V - 1 : ℕ) : ℤ) * ((s.dist u).toInt + (graph u v).toInt) ≤ (count + 1 : ℕ) * (2 ^ 31 - 2) ∧
      (s.dist u).toInt + (graph u v).toInt < 2 ^ 31 - 1 := by
  have hdist := h.bound u hu
  have hedge := (hgraph u v).2
  have hsum : ((V - 1 : ℕ) : ℤ) * ((s.dist u).toInt + (graph u v).toInt) ≤
      (count + 1 : ℕ) * (2 ^ 31 - 2) := by
    rw [mul_add]
    push_cast
    linarith
  have hrounds : ((count + 1 : ℕ) : ℤ) * (2 ^ 31 - 2) ≤ ((V - 1 : ℕ) : ℤ) * (2 ^ 31 - 2) :=
    mul_le_mul_of_nonneg_right (by exact_mod_cast hcount) (by norm_num)
  have hpos : (0 : ℤ) < ((V - 1 : ℕ) : ℤ) := by exact_mod_cast Nat.zero_lt_of_lt hcount
  have := le_of_mul_le_mul_left (hsum.trans hrounds) hpos
  exact ⟨hsum, by omega⟩

theorem Explored.exists_unvisited (h : Explored graph src count s) (hcount : count < V) :
    ∃ v, s.sptSet v = false := by
  by_contra hall
  have hvisited : ∀ v ∈ Finset.univ, s.sptSet v = true := by
    intro v _
    by_contra hv
    exact hall ⟨v, eq_false_of_ne_true hv⟩
  have hcard := h.card
  rw [Finset.filter_true_of_mem hvisited, Finset.card_univ, Fintype.card_fin] at hcard
  omega

/-- A round visits one vertex more. -/
theorem Explored.visit (h : Explored graph src count s) (hgraph : Moderate graph)
    (hcount : count < V - 1) :
    ∃ s', visit graph s = some s' ∧ Explored graph src (count + 1) s' := by
  have hadd := fun u v hfinite =>
    add_spec (h.nonneg u) (hgraph u v).1 (h.sum_lt hgraph hcount hfinite v).2
  obtain ⟨v, hv⟩ := h.exists_unvisited (by omega)
  obtain ⟨s', u, hvisit, hu, hmin, hvisited, hdist⟩ := visit_spec hv fun u v hfinite =>
    (hadd u v hfinite).1
  have hrounds : (count : ℤ) * (2 ^ 31 - 2) ≤ (count + 1 : ℕ) * (2 ^ 31 - 2) := by
    push_cast
    linarith
  refine ⟨s', hvisit, ?_, ?_, ?_, ?_⟩
  · intro v
    rw [hdist]
    rcases relaxed_eq v with heq | ⟨hfinite, heq⟩
    · rw [heq]
      exact h.nonneg v
    · rw [heq, (hadd u v hfinite).2]
      exact add_nonneg (h.nonneg u) (hgraph u v).1
  · intro v
    rw [hdist]
    rcases relaxed_eq v with heq | ⟨hfinite, heq⟩
    · rw [heq]
      exact fun hv => (h.bound v hv).trans hrounds
    · rw [heq, (hadd u v hfinite).2]
      exact fun _ => (h.sum_lt hgraph hcount hfinite v).1
  · have hinsert : (Finset.univ.filter fun v => s'.sptSet v = true) =
        insert u (Finset.univ.filter fun v => s.sptSet v = true) := by
      ext v
      simp [hvisited, or_comm]
    rw [hinsert, Finset.card_insert_of_notMem (by simp [hu]), h.card]
  · apply h.search.visit (u := u) (by simp [hu]) ?_ hvisited
    · intro v hv
      rw [hdist, relaxed_of_visited hv]
    · intro v hv
      have hfree := eq_false_of_ne_true hv
      rw [hdist]
      exact length_relaxed hfree (h.nonneg u) (h.nonneg v) (hgraph u v).1 fun hfinite =>
        (h.sum_lt hgraph hcount hfinite v).2
    · intro v hv
      exact (length_le_length (h.nonneg u) (h.nonneg v)).mpr (hmin v (eq_false_of_ne_true hv))

/-- The rounds of the outer loop. -/
theorem Explored.visits (h : Explored graph src count s) (hgraph : Moderate graph) {n : ℕ}
    (hn : count + n ≤ V - 1) :
    ∃ s', visits graph n s = some s' ∧ Explored graph src (count + n) s' := by
  induction n generalizing count s with
  | zero => exact ⟨s, rfl, h⟩
  | succ n ih =>
      obtain ⟨s', hvisit, h'⟩ := h.visit hgraph (by omega)
      obtain ⟨s'', hvisits, h''⟩ := ih h' (by omega)
      refine ⟨s'', ?_, ?_⟩
      · rw [Logs5.visits, hvisit]
        exact hvisits
      · rwa [show count + 1 + n = count + (n + 1) by omega] at h''

end

end BranchPrediction.Logs5
