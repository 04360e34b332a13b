import BranchPrediction.Automata.Cost
import Mathlib.Data.Fintype.BigOperators
import Mathlib.Data.Fintype.Pi
import Mathlib.Data.Nat.Choose.Basic
import Mathlib.Logic.Equiv.Fin.Basic

/-!
# Machines that guess

A machine is asked for one of two outcomes and then told which one it was.  If it
has to guess, exactly one of them is charged to it.  So over a fixed list of
questions the outcomes and the charges determine each other, and among all ways
the outcomes can turn out, those that cost `k` are as many as the choices of `k`
questions (`card_cost`): no machine does better than any other.

Some questions may be free of charge for either outcome, as long as it does not
depend on the outcomes of the others which ones are.
-/

namespace BranchPrediction.Automata

variable {σ τ α ε : Type*}

/-- The questions of a list, with their outcomes. -/
def answered (ask : α → Bool → ε) {n : ℕ} (as : Fin n → α) (outcomes : Fin n → Bool) : List ε :=
  List.ofFn fun i => ask (as i) (outcomes i)

/-- The machine has to guess the questions that are `hard`, and no others. -/
structure Guesses (ask : α → Bool → ε) (step : σ → ε → σ) (cost : σ → ε → ℕ) (next : τ → α → τ)
    (hard : τ → α → Bool) (R : σ → τ → Prop) : Prop where
  step : ∀ {s t}, R s t → ∀ a outcome, R (step s (ask a outcome)) (next t a)
  guess : ∀ {s t}, R s t → ∀ a, hard t a = true →
    ∃ guess, ∀ outcome, cost s (ask a outcome) = if outcome = guess then 0 else 1
  free : ∀ {s t}, R s t → ∀ a, hard t a = false → ∀ outcome, cost s (ask a outcome) = 0

/-- How many of the questions have to be guessed. -/
def guesses (next : τ → α → τ) (hard : τ → α → Bool) (t : τ) (as : List α) : ℕ :=
  runCost next (fun t a => if hard t a then 1 else 0) t as

/-- How many of them are free. -/
def gifts (next : τ → α → τ) (hard : τ → α → Bool) (t : τ) (as : List α) : ℕ :=
  runCost next (fun t a => if hard t a then 0 else 1) t as

theorem gifts_cons (next : τ → α → τ) (hard : τ → α → Bool) (t : τ) (a : α) (as : List α) :
    gifts next hard t (a :: as) =
      (if hard t a then 0 else 1) + gifts next hard (next t a) as := rfl

theorem guesses_cons (next : τ → α → τ) (hard : τ → α → Bool) (t : τ) (a : α) (as : List α) :
    guesses next hard t (a :: as) =
      (if hard t a then 1 else 0) + guesses next hard (next t a) as := rfl

theorem guesses_add_gifts (next : τ → α → τ) (hard : τ → α → Bool) (t : τ) (as : List α) :
    guesses next hard t as + gifts next hard t as = as.length := by
  induction as generalizing t with
  | nil => rfl
  | cons a as ih =>
      have htail := ih (next t a)
      rw [guesses_cons, gifts_cons, List.length_cons]
      split <;> omega

theorem gifts_true (next : τ → α → τ) (t : τ) (as : List α) :
    gifts next (fun _ _ => true) t as = 0 := by
  induction as generalizing t with
  | nil => rfl
  | cons a as ih => rw [gifts_cons, ih, if_pos rfl]

/-- The outcomes of a list of questions, by that of the first one. -/
theorem card_filter_cons {n : ℕ} (P : (Fin (n + 1) → Bool) → Prop) [DecidablePred P]
    (outcome : Bool) :
    (Finset.univ.filter P).card =
      (Finset.univ.filter fun outcomes => P (Fin.cons outcome outcomes)).card +
        (Finset.univ.filter fun outcomes => P (Fin.cons (!outcome) outcomes)).card := by
  simp only [Finset.card_filter]
  rw [← (Fin.consEquiv fun _ => Bool).sum_comp, Fintype.sum_prod_type]
  cases outcome with
  | false => exact (Fintype.sum_bool _).trans (Nat.add_comm _ _)
  | true => exact Fintype.sum_bool _

section

variable {ask : α → Bool → ε} {step : σ → ε → σ} {cost : σ → ε → ℕ} {next : τ → α → τ}
  {hard : τ → α → Bool} {R : σ → τ → Prop}

theorem runCost_answered_cons {n : ℕ} (as : Fin (n + 1) → α) (outcome : Bool)
    (outcomes : Fin n → Bool) (s : σ) :
    runCost step cost s (answered ask as (Fin.cons outcome outcomes)) =
      cost s (ask (as 0) outcome) +
        runCost step cost (step s (ask (as 0) outcome)) (answered ask (Fin.tail as) outcomes) := by
  rw [answered, List.ofFn_succ, runCost_cons]
  rfl

/-- **No machine guesses better than another.**  Of the ways the outcomes can turn
out, those that are charged `k` times are counted by the questions alone. -/
theorem Guesses.card_cost (h : Guesses ask step cost next hard R) {n : ℕ} (as : Fin n → α)
    {s : σ} {t : τ} (hst : R s t) (k : ℕ) :
    (Finset.univ.filter fun outcomes =>
        runCost step cost s (answered ask as outcomes) = k).card =
      2 ^ gifts next hard t (List.ofFn as) * (guesses next hard t (List.ofFn as)).choose k := by
  induction n generalizing s t k with
  | zero =>
      cases k with
      | zero => simp [answered, gifts, guesses]
      | succ k => simp [answered, guesses]
  | succ n ih =>
      have hofFn : List.ofFn as = as 0 :: List.ofFn (Fin.tail as) := List.ofFn_succ
      have ih' := fun outcome => ih (Fin.tail as) (h.step hst (as 0) outcome)
      rw [hofFn, gifts_cons, guesses_cons]
      cases hhard : hard t (as 0) with
      | false =>
          have hcost := h.free hst (as 0) hhard
          rw [card_filter_cons _ true]
          simp only [runCost_answered_cons, hcost, Nat.zero_add, ih', Bool.false_eq_true, if_false]
          rw [pow_add]
          ring
      | true =>
          obtain ⟨guess, hguess⟩ := h.guess hst (as 0) hhard
          rw [card_filter_cons _ guess]
          simp only [runCost_answered_cons, hguess, if_true, Nat.zero_add, ih', Bool.not_eq_self,
            if_false]
          cases k with
          | zero => simp
          | succ k =>
              simp only [Nat.add_comm 1, Nat.add_right_cancel_iff, ih', Nat.choose_succ_succ]
              ring

end

end BranchPrediction.Automata
