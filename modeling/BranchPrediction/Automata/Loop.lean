import Mathlib.Algebra.BigOperators.Group.List.Basic

/-!
# Loops

The outcomes of a loop: `k` times one way and then once the other way, again and
again.
-/

namespace BranchPrediction.Automata

/-- One pass of a loop: `k` times one way, then the other. -/
def loop (b : Bool) (k : ℕ) : List Bool :=
  List.replicate k b ++ [!b]

/-- A loop passed `m` times. -/
def loops (b : Bool) (k m : ℕ) : List Bool :=
  (List.replicate m (loop b k)).flatten

variable (b : Bool) (k m : ℕ)

theorem loop_succ : loop b (k + 1) = b :: loop b k := rfl

theorem length_loop : (loop b k).length = k + 1 := by
  simp [loop]

theorem length_loops : (loops b k m).length = m * (k + 1) := by
  simp [loops, length_loop]

theorem loops_append (m' : ℕ) : loops b k (m + m') = loops b k m ++ loops b k m' := by
  rw [loops, List.replicate_add, List.flatten_append, loops, loops]

/-- A first pass. -/
theorem loops_succ : loops b k (m + 1) = loop b k ++ loops b k m := by
  rw [loops, List.replicate_succ, List.flatten_cons, loops]

/-- A last pass. -/
theorem loops_succ' : loops b k (m + 1) = loops b k m ++ loop b k := by
  rw [loops_append, loops_succ, loops, loops, List.replicate_zero, List.flatten_nil,
    List.append_nil]

end BranchPrediction.Automata
