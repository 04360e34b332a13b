import BranchPrediction.Automata.Loop
import BranchPrediction.MyTage.Settled

/-!
# Loops

A loop branch is taken `k` times and then not taken, again and again.  For `k`
up to fifteen its next outcome is a function of the last sixteen, but TAGE does
not always learn it.

From nine on the body and the exit share the history of eight outcomes that `T1`
is looked up with.  The `T2` entry of the exit is allocated with no usefulness,
so until it has gained some the exit is predicted from the shared `T1` entry,
and that is trained by the body: the exit is trapped.  Up to eight the exit has
a `T1` entry of its own.

What is left is the tags that entries never allocated happen to have.  They
differ from address to address, but only those matter that the loop looks up, so
there are finitely many cases for each `k`; `loop_table` runs them until they
have settled.  One of them escapes the trap.
-/

namespace BranchPrediction.MyTage

open Automata

/-! ## A branch that runs alone -/

/-- The contexts of a branch that runs alone, from a history on. -/
def contexts (h : ℕ) : List Bool → List Context
  | [] => []
  | b :: l => .of h b :: contexts (push 16 h b) l

theorem contexts_append (h : ℕ) (l l' : List Bool) :
    contexts h (l ++ l') = contexts h l ++ contexts (l.foldl (push 16) h) l' := by
  induction l generalizing h with
  | nil => rfl
  | cons b l ih => simp only [List.cons_append, contexts, ih, List.foldl_cons]

theorem length_contexts (h : ℕ) (l : List Bool) : (contexts h l).length = l.length := by
  induction l generalizing h with
  | nil => rfl
  | cons b l ih => simp [contexts, ih]

/-- The base counter predicts taken at every event. -/
def PredictsTaken : ℕ → List Bool → Prop
  | _, [] => True
  | base, b :: l => 2 ≤ base ∧ PredictsTaken (nextBase b base) l

/-- The mispredictions of the tool are those seen by the branch. -/
theorem Seen.missed_eq {range : Range} {ip : ADDRINT} (hip : range.Contains ip)
    {es : List Event} (hes : ∀ e ∈ es, e.ip = ip) {σ : State} {s : Relative} (h : Seen ip σ s)
    (hσ : σ.Valid) (hghr : σ.ghr.toNat < 2 ^ 16)
    (hbase : PredictsTaken (σ.t0[ip]?.getD 2).toNat (es.map Event.isTaken)) :
    missed range σ es =
      runCost (Relative.step (addressTag ip)) (Relative.miss (addressTag ip)) s
        (contexts σ.ghr.toNat (es.map Event.isTaken)) := by
  induction es generalizing σ s with
  | nil => rfl
  | cons e es ih =>
      obtain rfl := hes e (List.mem_cons_self ..)
      obtain ⟨hnow, hlater⟩ := hbase
      have hghr' := toNat_ghr_step hip σ
      have hbase' := getD_t0_step hip σ e.ip
      rw [if_pos rfl] at hbase'
      have hrest := ih (fun e' he' => hes e' (List.mem_cons_of_mem e he'))
        (h.step hσ hghr hnow hip e.target e.isTaken) (hσ.step range e)
        (hghr' ▸ push_lt 16 _ e.isTaken) (by
          change PredictsTaken ((MyTage.step range σ e).t0[e.ip]?.getD 2).toNat _
          rw [hbase', MyBranch.toNat_bump (hσ.t0 e.ip)]
          exact hlater)
      have hhead : wrong range σ e =
          s.miss (addressTag e.ip) (.of σ.ghr.toNat e.isTaken) := by
        rw [wrong, Relative.miss, h.prediction hσ hghr hnow]
        by_cases hp : σ.prediction e.ip = e.isTaken
        · simp [hp, Context.of]
        · simp [hp, hip, Context.of]
      rw [List.map_cons, contexts, runCost_cons, ← hhead, ← hghr', ← hrest]
      rfl

/-- The mispredictions of a branch that runs alone from the initial globals. -/
theorem missed_alone {range : Range} {ip : ADDRINT} (hip : range.Contains ip)
    {es : List Event} (hes : ∀ e ∈ es, e.ip = ip)
    (hbase : PredictsTaken 2 (es.map Event.isTaken)) :
    missed range {} es =
      runCost (Relative.step (addressTag ip)) (Relative.miss (addressTag ip)) {}
        (contexts 0 (es.map Event.isTaken)) :=
  (Seen.initial ip).missed_eq hip hes (valid_run range []) (by decide) (by simpa using hbase)

/-! ## Loops -/

/-- The base counter saturates in the body of a loop, so the exit leaves it at
taken. -/
theorem predictsTaken_loop {k : ℕ} (hk : 1 ≤ k) {l : List Bool} (hl : PredictsTaken 2 l) :
    PredictsTaken 2 (loop true k ++ l) := by
  have hbody : ∀ n, PredictsTaken 3 (List.replicate n true ++ ([false] ++ l)) := by
    intro n
    induction n with
    | zero => exact ⟨by omega, hl⟩
    | succ n ih => exact ⟨by omega, ih⟩
  obtain ⟨k, rfl⟩ := Nat.exists_eq_add_of_le' hk
  rw [loop, List.append_assoc]
  exact ⟨le_rfl, hbody k⟩

theorem predictsTaken_loops {k : ℕ} (hk : 1 ≤ k) (m : ℕ) : PredictsTaken 2 (loops true k m) := by
  induction m with
  | zero => trivial
  | succ m ih =>
      rw [loops_succ]
      exact predictsTaken_loop hk ih

/-- Once the register is full of passes, one more does not change it. -/
theorem register_loops {k m : ℕ} (hm : 16 ≤ m * (k + 1)) :
    register 16 (loops true k (m + 1)) = register 16 (loops true k m) := by
  rw [register_eq_iff, loops_succ, lastInputs_append (hm.trans_eq (length_loops true k m).symm)]

/-- The passes after which the register is full. -/
def filled (k : ℕ) : ℕ :=
  16 / (k + 1) + 1

theorem le_filled_mul (k : ℕ) : 16 ≤ filled k * (k + 1) := by
  have := Nat.lt_div_mul_add (a := 16) (b := k + 1) (by omega)
  rw [filled, Nat.add_mul]
  omega

/-- The contexts of a pass, once the register is full. -/
def passContexts (k : ℕ) : List Context :=
  contexts (register 16 (loops true k (filled k))) (loop true k)

theorem register_loops_of_filled {k m : ℕ} (hm : filled k ≤ m) :
    register 16 (loops true k m) = register 16 (loops true k (filled k)) := by
  induction m, hm using Nat.le_induction with
  | base => rfl
  | succ m hm ih =>
      rw [register_loops ((le_filled_mul k).trans (Nat.mul_le_mul_right _ hm)), ih]

theorem contexts_loops_succ {k m : ℕ} (hm : filled k ≤ m) :
    contexts 0 (loops true k (m + 1)) = contexts 0 (loops true k m) ++ passContexts k := by
  rw [loops_succ', contexts_append, passContexts, ← register_loops_of_filled hm]
  rfl

/-- What the branch sees after `m` passes. -/
def afterLoops (p k m : ℕ) : Relative :=
  (contexts 0 (loops true k m)).foldl (Relative.step p) {}

theorem afterLoops_succ (p : ℕ) {k m : ℕ} (hm : filled k ≤ m) :
    afterLoops p k (m + 1) = (passContexts k).foldl (Relative.step p) (afterLoops p k m) := by
  rw [afterLoops, contexts_loops_succ hm, List.foldl_append]
  rfl

/-- The mispredictions of `m` passes. -/
def loopMisses (p k m : ℕ) : ℕ :=
  runCost (Relative.step p) (Relative.miss p) {} (contexts 0 (loops true k m))

/-- From a settled state on, each pass mispredicts its trapped contexts. -/
theorem loopMisses_add {p k n : ℕ} (hn : filled k ≤ n) {xs : List (Context × Bool)}
    (hxs : xs.map Prod.fst = passContexts k) (h : Settled p (afterLoops p k n) xs) (m : ℕ) :
    Settled p (afterLoops p k (n + m)) xs ∧
      loopMisses p k (n + m) = loopMisses p k n + m * xs.countP Prod.snd := by
  induction m with
  | zero => simpa using h
  | succ m ih =>
      obtain ⟨hsettled, hcost⟩ := ih
      obtain ⟨hnext, hpass⟩ := hsettled.cycle
      rw [hxs] at hnext hpass
      have hnm : filled k ≤ n + m := hn.trans (Nat.le_add_right n m)
      refine ⟨?_, ?_⟩
      · rw [← Nat.add_assoc, afterLoops_succ p hnm]
        exact hnext
      · rw [← Nat.add_assoc, loopMisses, contexts_loops_succ hnm, runCost_append, Nat.add_mul,
          Nat.one_mul, ← Nat.add_assoc, ← hcost]
        exact congrArg _ hpass

end BranchPrediction.MyTage
