import BranchPrediction.Graph.Levels
import Mathlib.Data.Fintype.Card
import Mathlib.Data.Fintype.Fin

/-!
# `bfs4.cpp`

The fourth workload searches a graph of 10 nodes, here of any number of them,
breadth first.  Next to its arrays the model keeps the nodes in the order in which
they are taken from `q`.
-/

namespace BranchPrediction.Bfs4

open BranchPrediction.Graph

variable {N : ℕ}

/-- `visited` and `q`. -/
structure State (N : ℕ) where
  visited : Fin N → Bool
  q : List (Fin N)

/-- The body of the inner loop. -/
def visit (s : State N) (neigh : Fin N) : State N :=
  if !s.visited neigh then ⟨Function.update s.visited neigh true, s.q ++ [neigh]⟩ else s

/-- The outer loop: the nodes it takes from `q`, and `visited` at its end.  It has no
result if it does not end within some rounds. -/
def search (adj : Fin N → List (Fin N)) : ℕ → State N → Option (List (Fin N) × (Fin N → Bool))
  | 0, _ => none
  | rounds + 1, s =>
      match s.q with
      | [] => some ([], s.visited)
      | node :: q => do
          let (nodes, visited) ← search adj rounds ((adj node).foldl visit { s with q })
          some (node :: nodes, visited)

/-- The arrays when the outer loop starts. -/
def start (node : Fin N) : State N where
  visited := Function.update (fun _ => false) node true
  q := [node]

/-- The graph of `main`. -/
def mainAdj (N : ℕ) (i : Fin N) : List (Fin N) :=
  (if h : i + 1 < N then [⟨i + 1, h⟩] else []) ++ if h : i + 2 < N then [⟨i + 2, h⟩] else []

section

variable {adj : Fin N → List (Fin N)} {source : Fin N}

/-- There is an edge to each neighbour. -/
def Edge (adj : Fin N → List (Fin N)) (u v : Fin N) : Prop :=
  v ∈ adj u

/-- The arrays while the neighbours of `u` are looked at. -/
structure Searching (adj : Fin N → List (Fin N)) (source : Fin N) (past : List (Fin N))
    (u : Fin N) (seen : List (Fin N)) (s : State N) : Prop where
  layered : Layered (Edge adj) source past u s.q seen
  visited : ∀ v, s.visited v = true ↔ v ∈ past ++ u :: s.q

theorem Searching.visit {past seen : List (Fin N)} {u v : Fin N} {s : State N}
    (h : Searching adj source past u seen s) (hv : Edge adj u v) :
    Searching adj source past u (seen ++ [v]) (visit s v) := by
  unfold Bfs4.visit
  cases hvisited : s.visited v with
  | true => exact ⟨h.layered.known ((h.visited v).mp hvisited), h.visited⟩
  | false =>
      have hnew : v ∉ past ++ u :: s.q := fun hmem =>
        Bool.false_ne_true (hvisited.symm.trans ((h.visited v).mpr hmem))
      refine ⟨h.layered.append hv hnew, ?_⟩
      intro w
      by_cases hw : w = v
      · simp [hw]
      · simpa [hw] using h.visited w

/-- The inner loop. -/
theorem Searching.visits {past seen : List (Fin N)} {u : Fin N} {s : State N}
    (h : Searching adj source past u seen s) {vs : List (Fin N)} (hvs : ∀ v ∈ vs, Edge adj u v) :
    Searching adj source past u (seen ++ vs) (vs.foldl Bfs4.visit s) := by
  induction vs generalizing seen s with
  | nil => rwa [List.append_nil]
  | cons v vs ih =>
      obtain ⟨hv, hvs⟩ := List.forall_mem_cons.mp hvs
      rw [List.append_cons]
      exact ih (h.visit hv) hvs

/-- A search level by level that comes across all that can be reached. -/
structure LevelOrder (adj : Fin N → List (Fin N)) (source : Fin N) (nodes : List (Fin N))
    (visited : Fin N → Bool) : Prop where
  nodup : nodes.Nodup
  mem_iff : ∀ v, v ∈ nodes ↔ Reach (Edge adj) source v
  visited_iff : ∀ v, visited v = true ↔ Reach (Edge adj) source v
  sorted : nodes.Pairwise fun u v => level (Edge adj) source u ≤ level (Edge adj) source v

theorem search_nil {rounds : ℕ} {s : State N} (hq : s.q = []) :
    search adj (rounds + 1) s = some ([], s.visited) := by
  rw [search, hq]

theorem search_cons {rounds : ℕ} {s : State N} {u : Fin N} {q : List (Fin N)} (hq : s.q = u :: q)
    {nodes : List (Fin N)} {visited : Fin N → Bool}
    (hrest : search adj rounds ((adj u).foldl visit { s with q }) = some (nodes, visited)) :
    search adj (rounds + 1) s = some (u :: nodes, visited) := by
  rw [search, hq]
  simp [hrest]

/-- The outer loop, from a node that is taken from `q`.  Each round is done with one
node more. -/
theorem search_of_searching {rounds : ℕ} {past q : List (Fin N)} {u : Fin N} {s : State N}
    (hq : s.q = u :: q) (h : Searching adj source past u [] { s with q })
    (hrounds : N ≤ rounds + past.length) :
    ∃ nodes visited, search adj (rounds + 1) s = some (nodes, visited) ∧
      LevelOrder adj source (past ++ nodes) visited := by
  induction rounds generalizing past q u s with
  | zero =>
      have hlength := h.layered.nodup.length_le_card
      rw [Fintype.card_fin, List.length_append, List.length_cons] at hlength
      omega
  | succ rounds ih =>
      have hall : ∀ w, Edge adj u w → w ∈ adj u := fun _ => id
      have h' := h.visits hall
      rw [List.nil_append] at h'
      generalize hs' : (adj u).foldl visit { s with q } = s' at h'
      cases hq' : s'.q with
      | nil =>
          have hlayered := h'.layered
          rw [hq'] at hlayered
          have hsearch : search adj (rounds + 1) ((adj u).foldl visit { s with q }) =
              some ([], s'.visited) := by
            rw [hs']
            exact search_nil hq'
          refine ⟨[u], s'.visited, search_cons hq hsearch, hlayered.nodup,
            fun v => hlayered.mem_iff_reach hall, ?_, hlayered.sorted⟩
          intro v
          rw [h'.visited, hq']
          exact hlayered.mem_iff_reach hall
      | cons u' q' =>
          have hlayered := h'.layered
          have hvisited := h'.visited
          rw [hq'] at hlayered hvisited
          have hnext : Searching adj source (past ++ [u]) u' [] { s' with q := q' } :=
            ⟨hlayered.next hall, by simpa using hvisited⟩
          obtain ⟨nodes, visited, hsearch, horder⟩ := ih hq' hnext (by
            rw [List.length_append, List.length_singleton]
            omega)
          rw [← hs'] at hsearch
          refine ⟨u :: nodes, visited, search_cons hq hsearch, ?_⟩
          rwa [List.append_cons]

end

/-- **The workload searches breadth first.**  It ends after a round for each node at
most; it takes from `q` exactly the nodes that can be reached, each once and in the
order of their levels, and leaves exactly them visited. -/
theorem search_levelOrder (adj : Fin N → List (Fin N)) (source : Fin N) :
    ∃ nodes visited, search adj (N + 1) (start source) = some (nodes, visited) ∧
      nodes.length ≤ N ∧ LevelOrder adj source nodes visited := by
  have h : Searching adj source [] source [] { start source with q := [] } := by
    refine ⟨layered_start, ?_⟩
    intro v
    by_cases hv : v = source
    · simp [start, hv]
    · simp [start, hv]
  obtain ⟨nodes, visited, hsearch, horder⟩ := search_of_searching rfl h (Nat.le_add_right N 0)
  refine ⟨nodes, visited, hsearch, ?_, horder⟩
  have hlength := horder.nodup.length_le_card
  rwa [Fintype.card_fin] at hlength

example : (search (mainAdj 10) 11 (start 0)).map Prod.fst = some (List.finRange 10) := by decide

end BranchPrediction.Bfs4
