import Mathlib.Data.List.Pairwise
import Mathlib.Order.Lattice.Nat

/-!
# Levels

The level of a vertex is the number of edges of a shortest path to it.  A search
that keeps the vertices it has come across in a queue, and appends the unknown
successors of the first one before it takes the next, comes across them level by
level: behind the vertices that are done, the queue holds what is left of one level
and then what is known of the next (`Layered`).
-/

namespace BranchPrediction.Graph

variable {α : Type*} (E : α → α → Prop) (s : α)

/-- A path from a vertex, and how many edges it has. -/
inductive Path : α → ℕ → Prop
  | nil : Path s 0
  | snoc {u v : α} {d : ℕ} : Path u d → E u v → Path v (d + 1)

/-- What can be reached from it. -/
def Reach (v : α) : Prop :=
  ∃ d, Path E s v d

/-- The number of edges of a shortest path. -/
noncomputable def level (v : α) : ℕ :=
  sInf {d | Path E s v d}

variable {E s}

theorem Path.level_le {v : α} {d : ℕ} (h : Path E s v d) : level E s v ≤ d :=
  Nat.sInf_le h

theorem Reach.path_level {v : α} (h : Reach E s v) : Path E s v (level E s v) :=
  Nat.sInf_mem h

theorem Reach.succ {u v : α} (h : Reach E s u) (huv : E u v) :
    Reach E s v ∧ level E s v ≤ level E s u + 1 :=
  ⟨⟨_, h.path_level.snoc huv⟩, (h.path_level.snoc huv).level_le⟩

/-- A vertex is reached from one of the level before. -/
theorem Reach.exists_pred {v : α} (h : Reach E s v) (hv : v ≠ s) :
    ∃ u, E u v ∧ Reach E s u ∧ level E s u + 1 = level E s v := by
  have hpath := h.path_level
  generalize hd : level E s v = d at hpath
  cases hpath with
  | nil => exact absurd rfl hv
  | snoc hu huv =>
      rename_i u d
      have hreach : Reach E s u := ⟨d, hu⟩
      refine ⟨u, huv, hreach, ?_⟩
      have hle := hu.level_le
      have hge := (hreach.succ huv).2
      omega

variable (E s)

/-- The search while the successors of `u` are appended: `past` is done, and the
successors in `seen` are known. -/
structure Layered (past : List α) (u : α) (queue seen : List α) : Prop where
  nodup : (past ++ u :: queue).Nodup
  source : s ∈ past ++ u :: queue
  reach : ∀ v ∈ past ++ u :: queue, Reach E s v
  sorted : (past ++ u :: queue).Pairwise fun v w => level E s v ≤ level E s w
  near : ∀ v ∈ past ++ u :: queue, level E s v ≤ level E s u + 1
  closed : ∀ v ∈ past, ∀ w, E v w → w ∈ past ++ u :: queue
  seen : ∀ v ∈ seen, v ∈ past ++ u :: queue

variable {E s} {past queue seen : List α} {u v : α}

/-- Behind a vertex, nothing is of a level before. -/
theorem Layered.mem_past (h : Layered E s past u queue seen)
    (hmem : v ∈ past ++ u :: queue) (hlt : level E s v < level E s u) : v ∈ past := by
  rcases List.mem_append.mp hmem with hpast | hqueue
  · exact hpast
  · have hsorted := (List.pairwise_append.mp h.sorted).2.1
    rcases List.mem_cons.mp hqueue with rfl | hqueue
    · exact absurd hlt (lt_irrefl _)
    · exact absurd hlt ((List.pairwise_cons.mp hsorted).1 v hqueue).not_gt

/-- The level of the vertex is known, and all before. -/
theorem Layered.complete (h : Layered E s past u queue seen) (hv : Reach E s v)
    (hle : level E s v ≤ level E s u) : v ∈ past ++ u :: queue := by
  generalize hd : level E s v = d at hle
  induction d generalizing v with
  | zero =>
      by_cases hsource : v = s
      · exact hsource ▸ h.source
      · obtain ⟨w, -, -, hlevel⟩ := hv.exists_pred hsource
        omega
  | succ d ih =>
      have hsource : v ≠ s := by
        rintro rfl
        have := (Path.nil : Path E v v 0).level_le
        omega
      obtain ⟨w, hwv, hw, hlevel⟩ := hv.exists_pred hsource
      have hmem := ih hw (by omega) (by omega)
      exact h.closed w (h.mem_past hmem (by omega)) v hwv

/-- A successor that is known already. -/
theorem Layered.known (h : Layered E s past u queue seen) (hv : v ∈ past ++ u :: queue) :
    Layered E s past u queue (seen ++ [v]) :=
  { h with
    seen := by
      rw [List.forall_mem_append, List.forall_mem_singleton]
      exact ⟨h.seen, hv⟩ }

/-- A successor that is not known is of the next level. -/
theorem Layered.append (h : Layered E s past u queue seen) (huv : E u v)
    (hv : v ∉ past ++ u :: queue) : Layered E s past u (queue ++ [v]) (seen ++ [v]) := by
  have hu := h.reach u (by simp)
  obtain ⟨hreach, hle⟩ := hu.succ huv
  have hlt : level E s u < level E s v :=
    not_le.mp fun hle => hv (h.complete hreach hle)
  have happend : past ++ u :: (queue ++ [v]) = (past ++ u :: queue) ++ [v] := by simp
  have hall : ∀ {P : α → Prop}, (∀ w ∈ past ++ u :: queue, P w) → P v →
      ∀ w ∈ past ++ u :: (queue ++ [v]), P w := by
    intro P hold hnew
    rw [happend, List.forall_mem_append, List.forall_mem_singleton]
    exact ⟨hold, hnew⟩
  refine ⟨?_, ?_, hall h.reach hreach, ?_, hall h.near hle, ?_, ?_⟩
  · rw [happend, List.nodup_append]
    refine ⟨h.nodup, List.nodup_singleton v, ?_⟩
    rintro w hw w' hw' rfl
    exact hv (List.mem_singleton.mp hw' ▸ hw)
  · rw [happend]
    exact List.mem_append_left _ h.source
  · rw [happend, List.pairwise_append]
    refine ⟨h.sorted, List.pairwise_singleton _ _, ?_⟩
    intro w hw w' hw'
    rw [List.mem_singleton.mp hw']
    have := h.near w hw
    omega
  · intro w hw w' hww'
    rw [happend]
    exact List.mem_append_left _ (h.closed w hw w' hww')
  · rw [happend, List.forall_mem_append, List.forall_mem_singleton]
    exact ⟨fun w hw => List.mem_append_left _ (h.seen w hw), List.mem_append_right _ (by simp)⟩

/-- The next vertex of the queue, once all successors are known. -/
theorem Layered.next {u' : α} (h : Layered E s past u (u' :: queue) seen)
    (hseen : ∀ w, E u w → w ∈ seen) : Layered E s (past ++ [u]) u' queue [] := by
  have happend : (past ++ [u]) ++ u' :: queue = past ++ u :: u' :: queue := by simp
  refine ⟨?_, ?_, ?_, ?_, ?_, ?_, nofun⟩
  · rw [happend]
    exact h.nodup
  · rw [happend]
    exact h.source
  · rw [happend]
    exact h.reach
  · rw [happend]
    exact h.sorted
  · rw [happend]
    intro w hw
    have hsorted := (List.pairwise_append.mp h.sorted).2.1
    have hle := (List.pairwise_cons.mp hsorted).1 u' (List.mem_cons_self ..)
    have := h.near w hw
    omega
  · rw [happend, List.forall_mem_append, List.forall_mem_singleton]
    exact ⟨h.closed, fun w hw => h.seen w (hseen w hw)⟩

/-- The end of the search. -/
theorem Layered.mem_iff_reach (h : Layered E s past u [] seen)
    (hseen : ∀ w, E u w → w ∈ seen) : v ∈ past ++ [u] ↔ Reach E s v := by
  constructor
  · exact h.reach v
  · rintro ⟨d, hpath⟩
    induction hpath with
    | nil => exact h.source
    | snoc hu huv ih =>
        rcases List.mem_append.mp ih with hpast | hu
        · exact h.closed _ hpast _ huv
        · exact h.seen _ (hseen _ (List.mem_singleton.mp hu ▸ huv))

theorem layered_start : Layered E s [] s [] [] := by
  refine ⟨List.nodup_singleton _, List.mem_singleton_self _, ?_, List.pairwise_singleton _ _, ?_,
    nofun, nofun⟩
  · intro v hv
    exact ⟨0, List.mem_singleton.mp hv ▸ Path.nil⟩
  · intro v hv
    rw [List.mem_singleton.mp hv]
    exact Nat.le_succ _

end BranchPrediction.Graph
