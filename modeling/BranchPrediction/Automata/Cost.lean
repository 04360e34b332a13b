import Mathlib.Algebra.BigOperators.Group.Finset.Basic
import Mathlib.Tactic.Ring

/-!
# Costs of runs

A machine reads a list of inputs from left to right.  `runCost` adds up what
each step is charged in the state it is taken in.  Two rules bound it:

* `runCost_le_of_potential`: if every step satisfies
  `cost + φ' ≤ credit + φ`, the costs of a run are covered by its credits and
  the initial potential;
* `runCost_follower_le`: a predictor that agrees with another one whenever that
  one has just been right errs at most twice as often, plus one if the two
  disagree at the start.

Both are relative to an invariant of the machine, so that only the states a run
can be in have to be checked.
-/

namespace BranchPrediction.Automata

variable {σ α β : Type*}

/-- What a run from a state is charged, one charge a step. -/
def runCost (step : σ → α → σ) (cost : σ → α → ℕ) : σ → List α → ℕ
  | _, [] => 0
  | s, a :: l => cost s a + runCost step cost (step s a) l

section

variable (step : σ → α → σ) (cost credit : σ → α → ℕ)

@[simp] theorem runCost_nil (s : σ) : runCost step cost s [] = 0 := rfl

@[simp] theorem runCost_cons (s : σ) (a : α) (l : List α) :
    runCost step cost s (a :: l) = cost s a + runCost step cost (step s a) l := rfl

theorem runCost_append (s : σ) (l l' : List α) :
    runCost step cost s (l ++ l') =
      runCost step cost s l + runCost step cost (l.foldl step s) l' := by
  induction l generalizing s with
  | nil => simp
  | cons a l ih => simp only [List.cons_append, runCost_cons, ih, List.foldl_cons, add_assoc]

theorem runCost_concat (s : σ) (l : List α) (a : α) :
    runCost step cost s (l ++ [a]) = runCost step cost s l + cost (l.foldl step s) a := by
  rw [runCost_append, runCost_cons, runCost_nil, add_zero]

theorem runCost_mul (k : ℕ) (s : σ) (l : List α) :
    runCost step (fun s a => k * cost s a) s l = k * runCost step cost s l := by
  induction l generalizing s with
  | nil => simp
  | cons a l ih => rw [runCost_cons, runCost_cons, ih, Nat.mul_add]

theorem runCost_add (s : σ) (l : List α) :
    runCost step (fun s a => cost s a + credit s a) s l =
      runCost step cost s l + runCost step credit s l := by
  induction l generalizing s with
  | nil => rfl
  | cons a l ih =>
      simp only [runCost_cons, ih]
      omega

/-- A charge that does not look at the state adds up over the inputs. -/
theorem runCost_input (f : α → ℕ) (s : σ) (l : List α) :
    runCost step (fun _ a => f a) s l = (l.map f).sum := by
  induction l generalizing s with
  | nil => rfl
  | cons a l ih => rw [runCost_cons, ih, List.map_cons, List.sum_cons]

theorem runCost_le_length (hcost : ∀ s a, cost s a ≤ 1) (s : σ) (l : List α) :
    runCost step cost s l ≤ l.length := by
  induction l generalizing s with
  | nil => exact Nat.le_refl _
  | cons a l ih =>
      have := hcost s a
      have := ih (step s a)
      rw [runCost_cons, List.length_cons]
      omega

/-- An invariant of the steps holds at the end of every run that starts in it. -/
theorem foldl_invariant {step : σ → α → σ} {Inv : σ → Prop}
    (hstep : ∀ s a, Inv s → Inv (step s a)) {s : σ} (hs : Inv s) (l : List α) :
    Inv (l.foldl step s) := by
  induction l generalizing s with
  | nil => exact hs
  | cons a l ih => exact ih (hstep s a hs)

variable {step cost credit}

/-- Two machines in step, charging the same in related states, cost the same. -/
theorem runCost_simulation {τ γ : Type*} {step' : τ → γ → τ} {cost' : τ → γ → ℕ}
    {R : σ → τ → Prop} (f : α → γ) (hstep : ∀ s t a, R s t → R (step s a) (step' t (f a)))
    (hcost : ∀ s t a, R s t → cost s a = cost' t (f a)) {s : σ} {t : τ} (hst : R s t)
    (l : List α) : runCost step cost s l = runCost step' cost' t (l.map f) := by
  induction l generalizing s t with
  | nil => rfl
  | cons a l ih =>
      rw [runCost_cons, List.map_cons, runCost_cons, hcost s t a hst, ih (hstep s t a hst)]

/-- Related states are related after a run of two machines in step. -/
theorem foldl_simulation {τ γ : Type*} {step' : τ → γ → τ} {R : σ → τ → Prop} (f : α → γ)
    (hstep : ∀ s t a, R s t → R (step s a) (step' t (f a))) {s : σ} {t : τ} (hst : R s t)
    (l : List α) : R (l.foldl step s) ((l.map f).foldl step' t) := by
  induction l generalizing s t with
  | nil => exact hst
  | cons a l ih => exact ih (hstep s t a hst)

/-- Charges that balance at every step, up to a potential, balance over a run. -/
theorem runCost_balance {Inv : σ → Prop} {φ : σ → ℕ}
    (hstep : ∀ s a, Inv s → Inv (step s a))
    (hcost : ∀ s a, Inv s → cost s a + φ (step s a) = credit s a + φ s)
    {s : σ} (hs : Inv s) (l : List α) :
    runCost step cost s l + φ (l.foldl step s) = runCost step credit s l + φ s := by
  induction l generalizing s with
  | nil => rfl
  | cons a l ih =>
      have hhead := hcost s a hs
      have htail := ih (hstep s a hs)
      simp only [runCost_cons, List.foldl_cons]
      omega

/-- **The potential method.**  A run's costs and its final potential are covered
by its credits and its initial potential. -/
theorem runCost_le_of_potential {Inv : σ → Prop} {φ : σ → ℕ}
    (hstep : ∀ s a, Inv s → Inv (step s a))
    (hφ : ∀ s a, Inv s → cost s a + φ (step s a) ≤ credit s a + φ s)
    {s : σ} (hs : Inv s) (l : List α) :
    runCost step cost s l + φ (l.foldl step s) ≤ runCost step credit s l + φ s := by
  induction l generalizing s with
  | nil => simp
  | cons a l ih =>
      have hhead := hφ s a hs
      have htail := ih (hstep s a hs)
      simp only [runCost_cons, List.foldl_cons]
      omega

end

/-- What bounds a run on each part of an input, from whatever state, bounds it on
the whole. -/
theorem runCost_flatten_le {step : σ → α → σ} {cost : σ → α → ℕ} {f : List α → ℕ}
    (h : ∀ s l, runCost step cost s l ≤ f l) (s : σ) (parts : List (List α)) :
    runCost step cost s parts.flatten ≤ (parts.map f).sum := by
  induction parts generalizing s with
  | nil => exact Nat.le_refl _
  | cons l parts ih =>
      rw [List.flatten_cons, runCost_append, List.map_cons, List.sum_cons]
      exact Nat.add_le_add (h s l) (ih _)

/-! ## Predictors -/

section

variable [DecidableEq β]

/-- The charge of a predictor that reads its prediction off the state: one for
every step whose outcome it did not predict. -/
def miss (outcome : α → β) (predict : σ → β) (s : σ) (a : α) : ℕ :=
  if predict s = outcome a then 0 else 1

theorem miss_le_one (outcome : α → β) (predict : σ → β) (s : σ) (a : α) :
    miss outcome predict s a ≤ 1 := by
  unfold miss
  split <;> omega

variable {step : σ → α → σ} {outcome : α → β} {lead follow : σ → β}

/-- **A follower errs at most twice as often as its lead.**  A miss of the
follower at a step where the lead is right needs the two to disagree, which they
only do right after a miss of the lead, or at the start. -/
theorem runCost_follower_le {Inv : σ → Prop} (hstep : ∀ s a, Inv s → Inv (step s a))
    (hagree : ∀ s a, Inv s → lead s = outcome a → follow (step s a) = lead (step s a))
    {s : σ} (hs : Inv s) (l : List α) :
    runCost step (miss outcome follow) s l ≤
      2 * runCost step (miss outcome lead) s l + if follow s = lead s then 0 else 1 := by
  let φ : σ → ℕ := fun s => if follow s = lead s then 0 else 1
  suffices hφ : ∀ s a, Inv s → miss outcome follow s a + φ (step s a) ≤
      2 * miss outcome lead s a + φ s by
    rw [← runCost_mul]
    exact le_trans (Nat.le_add_right _ _) (runCost_le_of_potential hstep hφ hs l)
  intro s a hInv
  simp only [φ]
  by_cases hlead : lead s = outcome a
  · -- a right lead: the two agree afterwards, so only this step can cost
    simp only [miss, hagree s a hInv hlead, if_pos, hlead]
    omega
  · -- a wrong lead pays two: for this step and for the disagreement it may leave
    simp only [miss, if_neg hlead]
    split_ifs <;> omega

end

section

variable {step : σ → Bool → σ} {cost : σ → Bool → ℕ} {b : Bool} {φ : σ → ℕ}

/-- **A predictor that comes back.**  If what it has still to lose on one outcome
falls with every miss on that outcome and rises by no more than two, miss included,
on the other, it errs at most twice as often as the other outcome occurs. -/
theorem runCost_le_count (hon : ∀ s, cost s b + φ (step s b) ≤ φ s)
    (hoff : ∀ s, cost s (!b) + φ (step s !b) ≤ 2 + φ s) (s : σ) (l : List Bool) :
    runCost step cost s l ≤ 2 * l.count (!b) + φ s := by
  have htrue : ∀ (s : σ) (_ : Bool), True → True := fun _ _ => id
  have hφ : ∀ s a, True →
      cost s a + φ (step s a) ≤ (if a = !b then 2 else 0) + φ s := by
    intro s a _
    by_cases ha : a = b
    · subst ha
      have := hon s
      omega
    · obtain rfl : a = !b := Bool.eq_not.mpr ha
      rw [if_pos rfl]
      exact hoff s
  have hcredit : runCost step (fun _ a => if a = !b then 2 else 0) s l = 2 * l.count (!b) := by
    rw [runCost_input]
    induction l with
    | nil => rfl
    | cons a l ih =>
        rw [List.map_cons, List.sum_cons, ih, List.count_cons, Nat.mul_add, Nat.add_comm]
        simp
  have hrun := runCost_le_of_potential htrue hφ trivial l (s := s)
  omega

end

end BranchPrediction.Automata
