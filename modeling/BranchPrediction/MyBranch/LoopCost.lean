import BranchPrediction.Automata.Loop
import BranchPrediction.MyBranch.Regret

/-!
# What a loop costs

A loop branch goes one way `k` times and then once the other way, again and
again.  From its second pass on it is in one of two states when a pass begins,
`entered`: the last outcome is that of the exit, and the counter has come back
from saturation by one step.  Such a pass costs the last outcome two misses and
the other two one each, whichever way the loop goes (`run_loop_of_entered`,
`costs_loops_of_entered`).

The first pass starts cold, where the counter is half way to taken, so a loop
that is taken costs less than one that is not.  With a body of one outcome that
is not taken the counter never saturates at all, and misses everything.
-/

namespace BranchPrediction.MyBranch

open Automata

namespace Replay

/-- The misses of the last outcome, of the counter and of the chooser. -/
def costs (r : Replay) (l : List Bool) : ℕ × ℕ × ℕ :=
  (runCost step miss1 r l, runCost step (miss id twoPred) r l, runCost step (miss id chosen) r l)

theorem costs_append (r : Replay) (l l' : List Bool) :
    costs r (l ++ l') = costs r l + costs (l.foldl step r) l' := by
  simp only [costs, runCost_append, Prod.mk_add_mk]

theorem costs_cons (r : Replay) (b : Bool) (l : List Bool) :
    costs r (b :: l) = costs r [b] + costs (r.step b) l :=
  costs_append r [b] l

/-- Passes that return to where they started cost the same every time. -/
theorem costs_flatten (I : Replay → Prop) {l : List Bool} {a b c : ℕ}
    (hpass : ∀ r, I r → I (l.foldl step r) ∧ costs r l = (a, b, c)) {r : Replay} (hr : I r)
    (m : ℕ) : costs r (List.replicate m l).flatten = (m * a, m * b, m * c) := by
  induction m generalizing r with
  | zero =>
      rw [Nat.zero_mul, Nat.zero_mul, Nat.zero_mul]
      rfl
  | succ m ih =>
      obtain ⟨hnext, hcost⟩ := hpass r hr
      rw [List.replicate_succ, List.flatten_cons, costs_append, hcost, ih hnext, Prod.mk_add_mk,
        Prod.mk_add_mk, Nat.succ_mul, Nat.succ_mul, Nat.succ_mul, Nat.add_comm a, Nat.add_comm b,
        Nat.add_comm c]

/-! ## The body -/

/-- A saturated counter. -/
def strong (b : Bool) : SatCounter 0 3 :=
  if b then ⟨3, by decide, by decide⟩ else ⟨0, by decide, by decide⟩

/-- A counter one step from changing its mind. -/
def weak (b : Bool) : SatCounter 0 3 :=
  if b then weaklyTaken else ⟨1, by decide, by decide⟩

/-- In the body of a loop, from some point on. -/
def inside (b : Bool) (chooser : SatCounter 0 3) : Replay :=
  ⟨some b, strong b, chooser⟩

theorem step_inside (b : Bool) (chooser : SatCounter 0 3) :
    (inside b chooser).step b = inside b chooser := by
  cases b <;> rfl

theorem costs_inside_singleton (b : Bool) (chooser : SatCounter 0 3) :
    costs (inside b chooser) [b] = 0 := by
  have hchosen : (inside b chooser).chosen = b := by
    have htwo : (inside b chooser).twoPred = b := by cases b <;> rfl
    unfold chosen
    rw [htwo]
    split <;> rfl
  have hmiss : miss id chosen (inside b chooser) b = 0 := if_pos hchosen
  rw [costs, runCost_cons step (miss id chosen), hmiss]
  cases b <;> rfl

/-- The body goes on as it is, and costs nothing. -/
theorem run_inside (b : Bool) (chooser : SatCounter 0 3) (n : ℕ) :
    (List.replicate n b).foldl step (inside b chooser) = inside b chooser ∧
      costs (inside b chooser) (List.replicate n b) = 0 := by
  induction n with
  | zero => exact ⟨rfl, rfl⟩
  | succ n ih =>
      obtain ⟨hstate, hcost⟩ := ih
      rw [List.replicate_succ, List.foldl_cons, costs_cons, step_inside, costs_inside_singleton,
        hcost]
      exact ⟨hstate, rfl⟩

/-- The chooser never leaves the counter's side: it is where it started, or at the end. -/
def OnTwo (chooser : SatCounter 0 3) : Prop :=
  chooser = weaklyTaken ∨ chooser = strong true

/-- Between two passes of a loop. -/
def entered (b : Bool) (chooser : SatCounter 0 3) : Replay :=
  ⟨some !b, weak b, chooser⟩

/-- The exit costs each of the three a miss. -/
theorem run_exit (b : Bool) {chooser : SatCounter 0 3} (hchooser : OnTwo chooser) :
    (inside b chooser).step (!b) = entered b chooser ∧
      costs (inside b chooser) [!b] = (1, 1, 1) := by
  rcases hchooser with rfl | rfl
  · cases b <;> exact ⟨rfl, rfl⟩
  · cases b <;> exact ⟨rfl, rfl⟩

/-- The rest of a pass, from inside the body. -/
theorem run_rest (b : Bool) {chooser : SatCounter 0 3} (hchooser : OnTwo chooser) (n : ℕ) :
    (loop b n).foldl step (inside b chooser) = entered b chooser ∧
      costs (inside b chooser) (loop b n) = (1, 1, 1) := by
  obtain ⟨hbody, hcost⟩ := run_inside b chooser n
  obtain ⟨hexit, hexitCost⟩ := run_exit b hchooser
  rw [loop, List.foldl_append, costs_append, hbody, hcost, hexitCost]
  exact ⟨hexit, rfl⟩

/-! ## The passes -/

/-- A pass that is not the first: the counter is right where the last outcome is
not, which is all the chooser sees of the loop. -/
theorem run_loop_of_entered (b : Bool) {chooser : SatCounter 0 3} (hchooser : OnTwo chooser)
    (k : ℕ) : (loop b (k + 1)).foldl step (entered b chooser) = entered b (strong true) ∧
      costs (entered b chooser) (loop b (k + 1)) = (2, 1, 1) := by
  have hfirst : (entered b chooser).step b = inside b (strong true) ∧
      costs (entered b chooser) [b] = (1, 0, 0) := by
    rcases hchooser with rfl | rfl
    · cases b <;> exact ⟨rfl, rfl⟩
    · cases b <;> exact ⟨rfl, rfl⟩
  obtain ⟨hrest, hcost⟩ := run_rest b (Or.inr rfl : OnTwo (strong true)) k
  rw [loop_succ, List.foldl_cons, costs_cons, hfirst.1, hfirst.2, hrest, hcost]
  exact ⟨rfl, rfl⟩

theorem costs_loops_of_entered (b : Bool) (k m : ℕ) :
    costs (entered b weaklyTaken) (loops b (k + 1) m) = (m * 2, m * 1, m * 1) := by
  apply costs_flatten fun r => ∃ chooser, OnTwo chooser ∧ r = entered b chooser
  · rintro r ⟨chooser, hchooser, rfl⟩
    obtain ⟨hstate, hcost⟩ := run_loop_of_entered b hchooser k
    exact ⟨⟨strong true, Or.inr rfl, hstate⟩, hcost⟩
  · exact ⟨weaklyTaken, Or.inl rfl, rfl⟩

/-- The first pass of a loop that is taken. -/
theorem run_first_taken (k : ℕ) :
    (loop true (k + 1)).foldl step cold = entered true weaklyTaken ∧
      costs cold (loop true (k + 1)) = (1, 1, 1) := by
  have hfirst : cold.step true = inside true weaklyTaken ∧ costs cold [true] = 0 :=
    ⟨rfl, rfl⟩
  obtain ⟨hrest, hcost⟩ := run_rest true (Or.inl rfl : OnTwo weaklyTaken) k
  rw [loop_succ, List.foldl_cons, costs_cons, hfirst.1, hfirst.2, hrest, hcost]
  exact ⟨rfl, rfl⟩

/-- The first pass of a loop that is not taken, twice or more often. -/
theorem run_first_not_taken (k : ℕ) :
    (loop false (k + 2)).foldl step cold = entered false weaklyTaken ∧
      costs cold (loop false (k + 2)) = (1, 2, 2) := by
  have hfirst : (cold.step false).step false = inside false weaklyTaken ∧
      costs cold [false, false] = (0, 1, 1) := ⟨rfl, rfl⟩
  obtain ⟨hrest, hcost⟩ := run_rest false (Or.inl rfl : OnTwo weaklyTaken) k
  have hloop : loop false (k + 2) = [false, false] ++ loop false k := rfl
  rw [hloop, List.foldl_append, costs_append, List.foldl_cons, List.foldl_cons, List.foldl_nil,
    hfirst.1, hfirst.2, hrest, hcost]
  exact ⟨rfl, rfl⟩

theorem costs_loops_taken (k m : ℕ) :
    costs cold (loops true (k + 1) (m + 1)) = (2 * m + 1, m + 1, m + 1) := by
  obtain ⟨hstate, hcost⟩ := run_first_taken k
  rw [loops_succ, costs_append, hstate, hcost, costs_loops_of_entered]
  simp only [Prod.mk_add_mk, Prod.mk.injEq]
  omega

theorem costs_loops_not_taken (k m : ℕ) :
    costs cold (loops false (k + 2) (m + 1)) = (2 * m + 1, m + 2, m + 2) := by
  obtain ⟨hstate, hcost⟩ := run_first_not_taken k
  rw [loops_succ, costs_append, hstate, hcost, costs_loops_of_entered]
  simp only [Prod.mk_add_mk, Prod.mk.injEq]
  omega

/-- A loop whose body is one outcome that is not taken keeps the counter between
its two middle states, on the wrong side of each. -/
theorem costs_loops_alternating (m : ℕ) :
    costs cold (loops false 1 (m + 1)) = (2 * m + 1, 2 * m + 2, 2 * m + 2) := by
  have hfirst : (loop false 1).foldl step cold = ⟨some true, weaklyTaken, weaklyTaken⟩ ∧
      costs cold (loop false 1) = (1, 2, 2) := ⟨rfl, rfl⟩
  have hlater : costs ⟨some true, weaklyTaken, weaklyTaken⟩ (loops false 1 m) =
      (m * 2, m * 2, m * 2) := by
    apply costs_flatten fun r => r = ⟨some true, weaklyTaken, weaklyTaken⟩
    · rintro r rfl
      exact ⟨rfl, rfl⟩
    · rfl
  rw [loops_succ, costs_append, hfirst.1, hfirst.2, hlater]
  simp only [Prod.mk_add_mk, Prod.mk.injEq]
  omega

end Replay

/-! ## In a stream -/

/-- What the events of one branch add to the misses of the three predictors. -/
theorem contributed_of_costs (range : Range) {es : List Event} {ip : ADDRINT} {a b c : ℕ}
    (hcosts : Replay.costs Replay.cold (range.outcomes es ip) = (a, b, c)) :
    contributed range miss1 ip {} es = a ∧ contributed range miss2 ip {} es = b ∧
      contributed range missH ip {} es = c := by
  obtain ⟨h1, h2, hH⟩ := contributed_run range [] es ip
  simp only [Replay.costs, Prod.mk.injEq] at hcosts
  obtain ⟨rfl, rfl, rfl⟩ := hcosts
  exact ⟨h1, h2, hH⟩

/-- **What a loop branch costs.**  However its events are interleaved with those
of other branches, a loop passed `m` times costs the 1-bit predictor `2m - 1`
misses.  The other two miss once a pass if the loop is taken, once more than
that if it is not, and always if its body is a single outcome not taken. -/
theorem loop_cost (range : Range) (es : List Event) (ip : ADDRINT) (k m : ℕ) (hm : 1 ≤ m)
    (hk : 1 ≤ k) :
    (range.outcomes es ip = loops true k m →
      contributed range miss1 ip {} es = 2 * m - 1 ∧ contributed range miss2 ip {} es = m ∧
        contributed range missH ip {} es = m) ∧
      (range.outcomes es ip = loops false k m →
        contributed range miss1 ip {} es = 2 * m - 1 ∧
          (2 ≤ k → contributed range miss2 ip {} es = m + 1 ∧
            contributed range missH ip {} es = m + 1) ∧
          (k = 1 → contributed range miss2 ip {} es = 2 * m ∧
            contributed range missH ip {} es = 2 * m)) := by
  obtain ⟨m, rfl⟩ := Nat.exists_eq_add_of_le' hm
  obtain ⟨k, rfl⟩ := Nat.exists_eq_add_of_le' hk
  constructor
  · intro houtcomes
    obtain ⟨h1, h2, hH⟩ :=
      contributed_of_costs range ((congrArg _ houtcomes).trans (Replay.costs_loops_taken k m))
    omega
  · intro houtcomes
    cases k with
    | zero =>
        obtain ⟨h1, h2, hH⟩ := contributed_of_costs range
          ((congrArg _ houtcomes).trans (Replay.costs_loops_alternating m))
        omega
    | succ k =>
        obtain ⟨h1, h2, hH⟩ := contributed_of_costs range
          ((congrArg _ houtcomes).trans (Replay.costs_loops_not_taken k m))
        omega

/-- Two passes of `T T N` around another branch cost 3, 2 and 2 misses. -/
theorem loop_cost_two :
    let es : List Event := [⟨4, 0, true⟩, ⟨8, 0, true⟩, ⟨4, 0, true⟩, ⟨4, 0, false⟩, ⟨4, 0, true⟩,
      ⟨4, 0, true⟩, ⟨8, 0, false⟩, ⟨4, 0, false⟩]
    contributed ⟨1, 9⟩ miss1 4 {} es = 2 * (2 : ℕ) - 1 ∧
      contributed ⟨1, 9⟩ miss2 4 {} es = (2 : ℕ) ∧ contributed ⟨1, 9⟩ missH 4 {} es = (2 : ℕ) :=
  (loop_cost ⟨1, 9⟩ _ 4 2 2 (by decide) (by decide)).1 (by decide)

end BranchPrediction.MyBranch
