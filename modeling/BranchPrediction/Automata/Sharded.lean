import BranchPrediction.Automata.Cost
import Mathlib.Algebra.BigOperators.Group.Finset.Piecewise

/-!
# Sharded machines

A machine is sharded when its state is one slice per key and every event names
at most one key: the slice of that key makes a step of its own, and no other
slice moves.  Such a machine is a product of independent per-key machines, so

* `slice_run`: the slice of a key after a run is its own machine run on the
  events of that key alone, however the keys are interleaved;
* `counter_run`: a counter that grows by a charge read off the named slice ends
  up with the sum, over the keys named, of what the per-key runs are charged.
-/

namespace BranchPrediction.Automata

open Finset

/-- A machine over `ε` whose state is seen through one slice per key. -/
structure Sharded (S ε κ σ : Type*) [DecidableEq κ] where
  /-- One step of the whole machine. -/
  step : S → ε → S
  /-- The key an event names, if it names one. -/
  key : ε → Option κ
  /-- The part of the state that belongs to a key. -/
  slice : S → κ → σ
  /-- One step of a slice. -/
  act : σ → ε → σ
  slice_step : ∀ s e k, slice (step s e) k = if key e = some k then act (slice s k) e else slice s k

namespace Sharded

variable {S ε κ σ : Type*} [DecidableEq κ] (M : Sharded S ε κ σ)

/-- The events of one key, in order. -/
def lane (es : List ε) (k : κ) : List ε :=
  es.filter fun e => M.key e = some k

/-- The keys a list of events names. -/
def keys (es : List ε) : Finset κ :=
  (es.filterMap M.key).toFinset

@[simp] theorem lane_nil (k : κ) : M.lane [] k = [] := rfl

theorem lane_append (es es' : List ε) (k : κ) :
    M.lane (es ++ es') k = M.lane es k ++ M.lane es' k :=
  List.filter_append es es'

theorem lane_singleton (e : ε) (k : κ) :
    M.lane [e] k = if M.key e = some k then [e] else [] := by
  simp [lane, List.filter_singleton]

theorem mem_keys {es : List ε} {k : κ} : k ∈ M.keys es ↔ ∃ e ∈ es, M.key e = some k := by
  simp [keys]

/-- **Slices run alone.** -/
theorem slice_run (es : List ε) (s : S) (k : κ) :
    M.slice (es.foldl M.step s) k = (M.lane es k).foldl M.act (M.slice s k) := by
  induction es generalizing s with
  | nil => rfl
  | cons e es ih =>
      rw [List.foldl_cons, ih, M.slice_step]
      by_cases hk : M.key e = some k <;> simp [hk, lane]

/-- The charge of one event: what its slice is charged, and nothing without a key. -/
def charge (c : σ → ε → ℕ) (s : S) (e : ε) : ℕ :=
  match M.key e with
  | none => 0
  | some k => c (M.slice s k) e

theorem charge_of_key {c : σ → ε → ℕ} {s : S} {e : ε} {k : κ} (hk : M.key e = some k) :
    M.charge c s e = c (M.slice s k) e := by
  simp [charge, hk]

theorem charge_of_none {c : σ → ε → ℕ} {s : S} {e : ε} (hk : M.key e = none) :
    M.charge c s e = 0 := by
  simp [charge, hk]

/-- The lanes' costs add up to the costs of the events, over any set of keys
that holds every key named. -/
theorem sum_runCost_lane (c : σ → ε → ℕ) (es : List ε) (s : S) {K : Finset κ}
    (hK : M.keys es ⊆ K) :
    ∑ k ∈ K, runCost M.act c (M.slice s k) (M.lane es k) = runCost M.step (M.charge c) s es := by
  induction es using List.reverseRecOn with
  | nil => simp
  | append_singleton es e ih =>
      have hes : M.keys es ⊆ K := by
        intro k hk
        obtain ⟨e', he', hkey⟩ := M.mem_keys.mp hk
        exact hK (M.mem_keys.mpr ⟨e', List.mem_append_left _ he', hkey⟩)
      -- only the lane of the last event's key grows, and by that event's charge
      have hlane : ∀ k, runCost M.act c (M.slice s k) (M.lane (es ++ [e]) k) =
          runCost M.act c (M.slice s k) (M.lane es k) +
            if M.key e = some k then c (M.slice (es.foldl M.step s) k) e else 0 := by
        intro k
        rw [lane_append, lane_singleton]
        split
        · rw [runCost_concat, slice_run]
        · simp
      rw [sum_congr rfl fun k _ => hlane k, sum_add_distrib, ih hes, runCost_concat]
      congr 1
      cases hkey : M.key e with
      | none => simp [charge, hkey]
      | some k =>
          have hmem : k ∈ K := hK (M.mem_keys.mpr ⟨e, by simp, hkey⟩)
          simp [charge, hkey, sum_ite_eq, hmem]

/-- **Counters add up over the keys.** -/
theorem counter_run {q : S → ℕ} {c : σ → ε → ℕ}
    (hq : ∀ s e, q (M.step s e) = q s + M.charge c s e) (es : List ε) (s : S) :
    q (es.foldl M.step s) =
      q s + ∑ k ∈ M.keys es, runCost M.act c (M.slice s k) (M.lane es k) := by
  rw [M.sum_runCost_lane c es s subset_rfl]
  induction es generalizing s with
  | nil => simp
  | cons e es ih => rw [List.foldl_cons, ih, hq, runCost_cons, add_assoc]

end Sharded

end BranchPrediction.Automata
