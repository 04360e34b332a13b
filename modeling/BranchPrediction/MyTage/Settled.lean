import BranchPrediction.MyTage.Relative

/-!
# Periodic runs that have settled

A branch runs through the same contexts again and again.  `Stable` says of one
context that its events will go on as they are: either they are predicted right
by counters that no event moves across their thresholds, or they are trapped
and always mispredicted.  If every context of the cycle is stable, an event
leaves every context stable, because nothing is allocated any more and every
training confirms (`Settled.step`); so a settled run mispredicts in every cycle
exactly the contexts that are trapped (`Settled.cycle`).

The one thing that time can still change is a usefulness.  A right prediction
made from a `T2` entry against the alternate needs its entry to stay useful, and
it does if no halving can come between two of its events while it is at one.
-/

namespace BranchPrediction.MyTage

open Automata

/-! ## One context -/

/-- A context that is `wait` events away, seen at a given clock, goes on as it
is; the flag says whether it is trapped. -/
inductive View.Stable (clock wait : ℕ) (v : View) (b : Bool) : Bool → Prop
  /-- The alternate is right, and so is the `T2` entry if it hits. -/
  | fine (halt : v.altPred = b) (hcounter : v.hit2 → v.gauge2.taken = b) :
      Stable clock wait v b false
  /-- The `T2` entry is right and useful, and will be when its turn comes. -/
  | kept (hhit : v.hit2) (hcounter : v.gauge2.taken = b)
      (hu : 2 ≤ v.gauge2.u ∨ v.gauge2.u = 1 ∧ clock % 1024 + wait < 1024) :
      Stable clock wait v b false
  /-- The branch is trapped. -/
  | trapped (h : v.Trapped b) : Stable clock wait v b true

namespace View

/-- A context after the event of another one: its hits and what its counters
predict are the same, and a `T2` entry it hits is only halved, if that is due. -/
structure Persists (due : Bool) (v v' : View) : Prop where
  base : v'.base = v.base
  hit1 : v'.hit1 = v.hit1
  hit2 : v'.hit2 = v.hit2
  taken1 : v'.gauge1.taken = v.gauge1.taken
  gauge2 : v.hit2 → v'.gauge2 = v.gauge2.halve due

theorem Persists.altPred_eq {due : Bool} {v v' : View} (h : Persists due v v') :
    v'.altPred = v.altPred := by
  rw [altPred, altPred, h.hit1, h.taken1, h.base]

namespace Stable

variable {clock wait : ℕ} {v v' : View} {b trapped : Bool}

theorem of_true (h : v.Stable clock wait b true) : v.Trapped b := by
  cases h
  assumption

/-- A stable context that is not trapped is predicted right. -/
theorem prediction_eq (h : v.Stable clock wait b false) : v.prediction = b := by
  cases h with
  | fine halt hcounter =>
      unfold View.prediction
      split
      · next hused =>
          rw [Bool.and_eq_true] at hused
          exact hcounter hused.1
      · exact halt
  | kept hhit hcounter hu =>
      have hne : v.gauge2.u ≠ 0 := by omega
      simpa [View.prediction, hhit, hne] using hcounter

theorem claims1_eq (h : v.Stable clock wait b trapped) : v.claims1 b = false := by
  cases trapped with
  | false => simp [claims1, h.prediction_eq]
  | true => simp [claims1, h.of_true.1]

theorem claims2_eq (h : v.Stable clock wait b trapped) : v.claims2 b = false := by
  cases trapped with
  | false => simp [claims2, h.prediction_eq]
  | true => simp [claims2, h.of_true.2.1]

/-- A `T1` entry that is trained predicted right already. -/
theorem taken_next1 (h : v.Stable clock wait b trapped) :
    (v.next1 b).taken = v.gauge1.taken := by
  rw [next1, h.claims1_eq]
  simp only [Bool.false_eq_true, if_false]
  split
  · next htrained =>
      rw [Bool.and_eq_true, Bool.not_eq_true'] at htrained
      obtain ⟨h1, h2⟩ := htrained
      cases trapped with
      | false =>
          have hb := h.prediction_eq
          simp only [View.prediction, h2, altPred, h1, Bool.false_and, Bool.false_eq_true, if_false,
            if_true] at hb
          rw [Gauge.taken_update hb, hb]
      | true => exact absurd (h.of_true.2.1.symm.trans h2) (by decide)
  · rfl

theorem next2_eq (h : v.Stable clock wait b trapped) :
    v.next2 b = if v.hit2 then v.gauge2.update v.prediction b else v.gauge2 := by
  rw [next2, h.claims2_eq]
  simp

/-- The event of a stable context leaves it stable until its next turn. -/
theorem own (h : v.Stable clock 0 b trapped) (hwait : wait < 1024)
    (hbase : v'.base = v.base) (h1 : v'.hit1 = v.hit1) (h2 : v'.hit2 = v.hit2)
    (hgauge1 : v'.gauge1 = (v.next1 b).halve (due (clock + 1)))
    (hgauge2 : v'.gauge2 = (v.next2 b).halve (due (clock + 1))) :
    v'.Stable (clock + 1) wait b trapped := by
  have halt : v'.altPred = v.altPred := by
    rw [altPred, altPred, h1, hgauge1, Gauge.taken_halve, h.taken_next1, hbase]
  have htaken1 : v'.gauge1.taken = v.gauge1.taken := by
    rw [hgauge1, Gauge.taken_halve, h.taken_next1]
  rw [h.next2_eq] at hgauge2
  cases h with
  | fine hfine hcounter =>
      apply View.Stable.fine (halt.trans hfine)
      intro hhit
      rw [h2] at hhit
      rw [hgauge2, if_pos hhit, Gauge.taken_halve, Gauge.taken_update (hcounter hhit)]
  | kept hhit hcounter hu =>
      have hright : v.prediction = b := prediction_eq (.kept hhit hcounter hu)
      rw [if_pos hhit, hright] at hgauge2
      refine .kept (h2.trans hhit) ?_ ?_
      · rw [hgauge2, Gauge.taken_halve, Gauge.taken_update hcounter]
      · -- used, it is at least at two, and a halving now is the last for long
        rw [hgauge2, Gauge.u_halve, due_eq]
        simp only [Gauge.update, if_true, decide_eq_true_eq]
        split <;> omega
  | trapped htrapped =>
      refine .trapped ⟨h1.trans htrapped.1, h2.trans htrapped.2.1, ?_, ?_⟩
      · rw [hgauge2, if_pos htrapped.2.1, Gauge.u_halve]
        simp only [Gauge.update, if_neg htrapped.prediction, htrapped.2.2.1]
        split <;> rfl
      · rw [htaken1]
        exact htrapped.2.2.2

/-- The event of another context leaves a stable context stable. -/
theorem other (h : v.Stable clock (wait + 1) b trapped) (hwait : wait < 1024)
    (hv : Persists (due (clock + 1)) v v') : v'.Stable (clock + 1) wait b trapped := by
  cases h with
  | fine hfine hcounter =>
      apply View.Stable.fine (hv.altPred_eq.trans hfine)
      intro hhit
      rw [hv.hit2] at hhit
      rw [hv.gauge2 hhit, Gauge.taken_halve]
      exact hcounter hhit
  | kept hhit hcounter hu =>
      refine .kept (hv.hit2.trans hhit) ?_ ?_
      · rw [hv.gauge2 hhit, Gauge.taken_halve]
        exact hcounter
      · rw [hv.gauge2 hhit, Gauge.u_halve, due_eq]
        simp only [decide_eq_true_eq]
        split <;> omega
  | trapped htrapped =>
      refine .trapped ⟨hv.hit1.trans htrapped.1, hv.hit2.trans htrapped.2.1, ?_, ?_⟩
      · rw [hv.gauge2 htrapped.2.1, Gauge.u_halve, htrapped.2.2.1]
        split <;> rfl
      · rw [hv.taken1]
        exact htrapped.2.2.2

end Stable

end View

/-! ## A cycle of contexts -/

/-- The charge of an event for being mispredicted. -/
def Relative.miss (p : ℕ) (s : Relative) (x : Context) : ℕ :=
  if (s.view p x).prediction = x.outcome then 0 else 1

namespace Relative

variable {p : ℕ} {s : Relative} {x y : Context}

/-- What a context reads after the event of another one that allocates nothing. -/
theorem view_step (h1 : (s.view p x).claims1 x.outcome = false)
    (h2 : (s.view p x).claims2 x.outcome = false) :
    (s.step p x).view p y =
      { s.view p y with
        gauge1 := (if x.index1 = y.index1 then (s.view p x).next1 x.outcome
          else (s.view p y).gauge1).halve (due (s.clock + 1))
        gauge2 := (if x.index2 = y.index2 then (s.view p x).next2 x.outcome
          else (s.view p y).gauge2).halve (due (s.clock + 1)) } := by
  have ht1 : (s.step p x).t1.get y.index1 =
      ⟨(s.t1.get y.index1).tag, (if x.index1 = y.index1 then (s.view p x).next1 x.outcome
        else (s.view p y).gauge1).halve (due (s.clock + 1))⟩ := by
    rw [get_t1_step, h1]
    split <;> rfl
  have ht2 : (s.step p x).t2.get y.index2 =
      ⟨(s.t2.get y.index2).tag, (if x.index2 = y.index2 then (s.view p x).next2 x.outcome
        else (s.view p y).gauge2).halve (due (s.clock + 1))⟩ := by
    rw [get_t2_step, h2]
    split <;> rfl
  rw [view, ht1, ht2]
  rfl

end Relative

/-- The contexts of a cycle, in the order in which they come and with the flag
of being trapped, are all stable, and no two look up the same `T2` entry under
the same tag. -/
structure Settled (p : ℕ) (s : Relative) (xs : List (Context × Bool)) : Prop where
  stable : ∀ i x trapped, xs[i]? = some (x, trapped) →
    (s.view p x).Stable s.clock i x.outcome trapped
  distinct : xs.Pairwise fun x y => (x.1.index2, x.1.tag2) ≠ (y.1.index2, y.1.tag2)
  short : xs.length ≤ 1024

namespace Settled

variable {p : ℕ} {s : Relative} {x : Context} {trapped : Bool} {xs : List (Context × Bool)}

theorem head (h : Settled p s ((x, trapped) :: xs)) :
    (s.view p x).Stable s.clock 0 x.outcome trapped :=
  h.stable 0 x trapped rfl

theorem miss_eq (h : Settled p s ((x, trapped) :: xs)) :
    s.miss p x = if trapped then 1 else 0 := by
  unfold Relative.miss
  cases trapped with
  | false => rw [if_pos h.head.prediction_eq]; rfl
  | true => rw [if_neg h.head.of_true.prediction]; rfl

theorem view_eq (h : Settled p s ((x, trapped) :: xs)) (y : Context) :
    (s.step p x).view p y =
      { s.view p y with
        gauge1 := (if x.index1 = y.index1 then (s.view p x).next1 x.outcome
          else (s.view p y).gauge1).halve (due (s.clock + 1))
        gauge2 := (if x.index2 = y.index2 then (s.view p x).next2 x.outcome
          else (s.view p y).gauge2).halve (due (s.clock + 1)) } :=
  Relative.view_step h.head.claims1_eq h.head.claims2_eq

/-- The event of the first context leaves the others what they read. -/
theorem persists (h : Settled p s ((x, trapped) :: xs)) {y : Context × Bool} (hy : y ∈ xs) :
    View.Persists (due (s.clock + 1)) (s.view p y.1) ((s.step p x).view p y.1) := by
  have hview := h.view_eq y.1
  refine ⟨by rw [hview], by rw [hview], by rw [hview], ?_, ?_⟩
  · rw [hview, Gauge.taken_halve]
    split
    · next hsame =>
        rw [h.head.taken_next1]
        simp only [Relative.view, hsame]
    · rfl
  · intro hhit
    rw [hview]
    dsimp only
    congr 1
    split
    · next hsame =>
        -- the entry is the other context's own, so this one misses it
        have hne := List.rel_of_pairwise_cons h.distinct hy
        have hmiss : (s.view p x).hit2 = false := by
          by_contra hhit'
          rw [Bool.not_eq_false] at hhit'
          simp only [Relative.view] at hhit hhit'
          rw [hsame] at hhit'
          exact hne (Prod.ext hsame (Cell.hits_unique hhit' hhit))
        rw [h.head.next2_eq, hmiss]
        simp only [Relative.view, hsame, Bool.false_eq_true, if_false]
    · rfl

/-- It leaves itself stable until its next turn. -/
theorem stable_own (h : Settled p s ((x, trapped) :: xs)) :
    ((s.step p x).view p x).Stable (s.clock + 1) xs.length x.outcome trapped := by
  have hshort : xs.length < 1024 := h.short
  have hview := h.view_eq x
  apply h.head.own hshort <;> rw [hview] <;> simp

/-- **Everything stays as it is.**  After its event a context goes to the end of
the cycle. -/
theorem step (h : Settled p s ((x, trapped) :: xs)) :
    Settled p (s.step p x) (xs ++ [(x, trapped)]) where
  stable i y t hy := by
    have hshort : xs.length < 1024 := h.short
    rcases Nat.lt_or_ge i xs.length with hi | hi
    · rw [List.getElem?_append_left hi] at hy
      exact (h.stable (i + 1) y t hy).other (by omega) (h.persists (List.mem_of_getElem? hy))
    · have hlen : i = xs.length := by
        have := (List.getElem?_eq_some_iff.mp hy).1
        simp only [List.length_append, List.length_singleton] at this
        omega
      subst hlen
      rw [List.getElem?_concat_length, Option.some.injEq, Prod.mk.injEq] at hy
      obtain ⟨rfl, rfl⟩ := hy
      exact h.stable_own
  distinct := by
    have hdistinct := h.distinct
    rw [List.pairwise_cons] at hdistinct
    rw [List.pairwise_append]
    refine ⟨hdistinct.2, List.pairwise_singleton .., ?_⟩
    intro y hy z hz
    rw [List.mem_singleton.mp hz]
    exact (hdistinct.1 y hy).symm
  short := by simpa using h.short

/-- A settled run mispredicts the contexts that are trapped. -/
theorem run {ys : List (Context × Bool)} (h : Settled p s (xs ++ ys)) :
    Settled p ((xs.map Prod.fst).foldl (Relative.step p) s) (ys ++ xs) ∧
      runCost (Relative.step p) (Relative.miss p) s (xs.map Prod.fst) = xs.countP Prod.snd := by
  induction xs generalizing s ys with
  | nil => exact ⟨by simpa using h, rfl⟩
  | cons x xs ih =>
      have hstep : Settled p (s.step p x.1) (xs ++ (ys ++ [x])) := by
        rw [← List.append_assoc]
        exact h.step
      obtain ⟨hsettled, hcost⟩ := ih hstep
      refine ⟨by simpa using hsettled, ?_⟩
      rw [List.map_cons, runCost_cons, hcost, h.miss_eq, List.countP_cons, Nat.add_comm]

/-- After a cycle the run is where it was. -/
theorem cycle (h : Settled p s xs) :
    Settled p ((xs.map Prod.fst).foldl (Relative.step p) s) xs ∧
      runCost (Relative.step p) (Relative.miss p) s (xs.map Prod.fst) = xs.countP Prod.snd := by
  rw [← List.append_nil xs] at h
  have := h.run
  rwa [List.nil_append] at this

end Settled

end BranchPrediction.MyTage
