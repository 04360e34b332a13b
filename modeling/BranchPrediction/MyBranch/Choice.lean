import BranchPrediction.MyBranch.Regret

/-!
# What choosing wins and loses

Where a branch's last outcome and its counter predict differently, exactly one of
them is right, and the chooser moves towards it.  What the hybrid wins and loses by
choosing can be told from these moves alone:

* each time the chooser changes sides, the hybrid has just lost against the
  component it turns to;
* what it wins back on a side it wins on the way to the end of that side, and
  while the chooser stays there.

So on either side the changes are set against the moves that leave the chooser at
the end, and against the choosers that are left there when the run is over.  A
first execution that is not taken is lost to the last outcome, which is not
charged for it.
-/

namespace BranchPrediction.MyBranch

open Automata

namespace Replay

/-- The last outcome and the counter predict differently. -/
def disputed (r : Replay) : Bool :=
  match r.last with
  | none => false
  | some a => a != r.twoPred

/-- A disputed execution that moves the chooser from one value to the other, or
leaves it where it is. -/
def moved (v v' : ℤ) (r : Replay) (outcome : Bool) : ℕ :=
  if r.disputed ∧ r.chooser.val = v ∧ (r.step outcome).chooser.val = v' then 1 else 0

/-- The chooser has this value. -/
def chooserAt (v : ℤ) (r : Replay) : ℕ :=
  if r.chooser.val = v then 1 else 0

/-- A first execution that is not taken. -/
def openedNotTaken (r : Replay) (outcome : Bool) : ℕ :=
  if r.last = none ∧ outcome = false then 1 else 0

/-- A branch that was never executed has nothing but its initial state. -/
def Fresh (r : Replay) : Prop :=
  r.last = none → r = cold

theorem fresh_step (r : Replay) (outcome : Bool) : (r.step outcome).Fresh := nofun

section

variable {r : Replay} (outcome : Bool)

/-- A dispute is between a prediction and its opposite. -/
theorem last_of_disputed (h : r.disputed = true) : r.last = some !r.twoPred := by
  unfold disputed at h
  cases hlast : r.last with
  | none => simp [hlast] at h
  | some a => simpa [hlast, Bool.bne_eq_xor, Bool.eq_not_iff] using h

theorem chooser_step_of_disputed (h : r.disputed = true) :
    (r.step outcome).chooser = r.chooser.train (r.twoPred = outcome) := by
  simp [step, last_of_disputed h]

theorem chooser_step_of_undisputed (h : r.disputed = false) :
    (r.step outcome).chooser = r.chooser := by
  unfold disputed at h
  cases hlast : r.last with
  | none => simp [step, hlast]
  | some a =>
      have heq : a = r.twoPred := by simpa [hlast] using h
      simp [step, hlast, heq]

theorem moved_of_undisputed (h : r.disputed = false) (v v' : ℤ) : moved v v' r outcome = 0 :=
  if_neg fun hmoved => Bool.false_ne_true (h.symm.trans hmoved.1)

theorem chooserAt_of_undisputed (h : r.disputed = false) (v : ℤ) :
    chooserAt v (r.step outcome) = chooserAt v r := by
  rw [chooserAt, chooser_step_of_undisputed outcome h, chooserAt]

theorem chosen_of_disputed (h : r.disputed = true) :
    r.chosen = if r.chooser.val ≤ 1 then !r.twoPred else r.twoPred := by
  rw [chosen, last_of_disputed h, Option.getD_some]

theorem chosen_of_undisputed (hr : r.Fresh) (h : r.disputed = false) : r.chosen = r.twoPred := by
  cases hlast : r.last with
  | none =>
      rw [hr hlast]
      rfl
  | some a =>
      have heq : a = r.twoPred := by simpa [disputed, hlast] using h
      rw [chosen, hlast, Option.getD_some, heq, ite_self]

theorem miss1_of_disputed (h : r.disputed = true) :
    miss1 r outcome = if (!r.twoPred) = outcome then 0 else 1 := by
  rw [miss1, last_of_disputed h]

/-- An undisputed execution costs the last outcome what it costs the counter, but for
the first one. -/
theorem miss1_of_undisputed (hr : r.Fresh) (h : r.disputed = false) :
    miss1 r outcome + openedNotTaken r outcome = miss id twoPred r outcome := by
  cases hlast : r.last with
  | none =>
      rw [hr hlast]
      cases outcome <;> rfl
  | some a =>
      have heq : a = r.twoPred := by simpa [disputed, hlast] using h
      simp [miss1, openedNotTaken, miss, hlast, heq]

theorem openedNotTaken_of_disputed (h : r.disputed = true) : openedNotTaken r outcome = 0 := by
  simp [openedNotTaken, last_of_disputed h]

/-- Where a dispute leaves the chooser. -/
theorem val_step_of_disputed (h : r.disputed = true) : (r.step outcome).chooser.val =
    if r.twoPred = outcome then min (r.chooser.val + 1) 3 else max (r.chooser.val - 1) 0 := by
  rw [chooser_step_of_disputed outcome h, SatCounter.val_train]
  simp only [decide_eq_true_eq]

/-- **Against the counter** the hybrid loses a return to the counter's side.  It wins
what leaves the chooser at 0, and all that brings it there. -/
theorem miss_chosen_two (hr : r.Fresh) :
    miss id chosen r outcome + moved 0 0 r outcome + chooserAt 0 (r.step outcome) =
      miss id twoPred r outcome + moved 1 2 r outcome + chooserAt 0 r := by
  have hlo := r.chooser.lo_le
  have hhi := r.chooser.le_hi
  cases h : r.disputed with
  | false =>
      rw [moved_of_undisputed outcome h, moved_of_undisputed outcome h,
        chooserAt_of_undisputed outcome h, miss, chosen_of_undisputed hr h, miss]
  | true =>
      simp only [miss, moved, chooserAt, chosen_of_disputed h, h, true_and, id,
        val_step_of_disputed outcome h]
      cases r.twoPred <;> cases outcome <;> simp <;> split_ifs <;> omega

/-- **Against the last outcome** it loses a change to that side, and the first
execution.  It wins what leaves the chooser at 3, and all that brings it there. -/
theorem miss_chosen_last (hr : r.Fresh) :
    miss id chosen r outcome + moved 3 3 r outcome + chooserAt 3 (r.step outcome) =
      miss1 r outcome + (moved 2 1 r outcome + openedNotTaken r outcome) + chooserAt 3 r := by
  have hlo := r.chooser.lo_le
  have hhi := r.chooser.le_hi
  cases h : r.disputed with
  | false =>
      have hlast := miss1_of_undisputed outcome hr h
      rw [miss] at hlast ⊢
      rw [moved_of_undisputed outcome h, moved_of_undisputed outcome h,
        chooserAt_of_undisputed outcome h, chosen_of_undisputed hr h]
      omega
  | true =>
      simp only [miss, moved, chooserAt, chosen_of_disputed h, h, true_and, id,
        val_step_of_disputed outcome h, miss1_of_disputed outcome h,
        openedNotTaken_of_disputed outcome h]
      cases r.twoPred <;> cases outcome <;> simp <;> split_ifs <;> omega

end

end Replay

/-- The disputes of an outcome string that move the chooser so. -/
def moves (v v' : ℤ) (l : List Bool) : ℕ :=
  runCost Replay.step (Replay.moved v v') Replay.cold l

theorem chooserMisses_add_two (l : List Bool) :
    chooserMisses l + moves 0 0 l + (Replay.after l).chooserAt 0 =
      twoBitMisses l + moves 1 2 l := by
  have h := runCost_balance (fun r a _ => Replay.fresh_step r a)
    (fun _ a => Replay.miss_chosen_two a) (s := Replay.cold) (fun _ => rfl) l
  rw [runCost_add, runCost_add, runCost_twoPred] at h
  exact h

theorem runCost_openedNotTaken_of_last (r : Replay) {a : Bool} (hr : r.last = some a)
    (l : List Bool) : runCost Replay.step Replay.openedNotTaken r l = 0 := by
  induction l generalizing r a with
  | nil => rfl
  | cons b l ih =>
      rw [runCost_cons, ih (r.step b) rfl]
      simp [Replay.openedNotTaken, hr]

theorem runCost_openedNotTaken (l : List Bool) :
    runCost Replay.step Replay.openedNotTaken Replay.cold l =
      if l.head? = some false then 1 else 0 := by
  cases l with
  | nil => rfl
  | cons b l =>
      rw [runCost_cons, runCost_openedNotTaken_of_last (Replay.cold.step b) rfl]
      cases b <;> rfl

theorem chooserMisses_add_last (l : List Bool) :
    chooserMisses l + moves 3 3 l + (Replay.after l).chooserAt 3 =
      changes l + (moves 2 1 l + if l.head? = some false then 1 else 0) := by
  have h := runCost_balance (fun r a _ => Replay.fresh_step r a)
    (fun _ a => Replay.miss_chosen_last a) (s := Replay.cold) (fun _ => rfl) l
  rw [runCost_add, runCost_add, runCost_add, runCost_miss1, runCost_openedNotTaken] at h
  exact h

/-! ## Over the branches of a stream -/

/-- The disputes of a stream that move a chooser so. -/
def movesOf (range : Range) (es : List Event) (v v' : ℤ) : ℕ :=
  ∑ ip ∈ range.branches es, moves v v' (range.outcomes es ip)

/-- The branches whose chooser is left with this value. -/
def endedAt (range : Range) (es : List Event) (v : ℤ) : Finset ADDRINT :=
  (range.branches es).filter fun ip => (Replay.after (range.outcomes es ip)).chooser.val = v

/-- The branches whose first outcome is not taken. -/
def openedNotTakenOf (range : Range) (es : List Event) : Finset ADDRINT :=
  (range.branches es).filter fun ip => (range.outcomes es ip).head? = some false

/-- Choosing pays on both sides: the choosers change sides no more often than they
are kept at the end of the side they leave, or left there. -/
structure ChoicePays (range : Range) (es : List Event) : Prop where
  onLast : movesOf range es 1 2 ≤ movesOf range es 0 0 + (endedAt range es 0).card
  onTwo : movesOf range es 2 1 + (openedNotTakenOf range es).card ≤
    movesOf range es 3 3 + (endedAt range es 3).card

instance (range : Range) (es : List Event) : Decidable (ChoicePays range es) :=
  decidable_of_iff (_ ∧ _) ⟨fun h => ⟨h.1, h.2⟩, fun h => ⟨h.onLast, h.onTwo⟩⟩

section

variable (range : Range) (es : List Event)

theorem card_endedAt (v : ℤ) : (endedAt range es v).card =
    ∑ ip ∈ range.branches es, (Replay.after (range.outcomes es ip)).chooserAt v :=
  Finset.card_filter ..

theorem correctH_add_two : (run range es {}).correctH + movesOf range es 1 2 =
    (run range es {}).correct2 + (movesOf range es 0 0 + (endedAt range es 0).card) := by
  have hsum := Finset.sum_congr (rfl : range.branches es = _) fun ip _ =>
    chooserMisses_add_two (range.outcomes es ip)
  rw [Finset.sum_add_distrib, Finset.sum_add_distrib, Finset.sum_add_distrib] at hsum
  obtain ⟨-, hpred2, hpredH⟩ := predictions_run range es
  have hmiss2 := miss2_run range es
  have hmissH := missH_run range es
  rw [card_endedAt]
  unfold movesOf
  omega

theorem correctH_add_last : (run range es {}).correctH +
    (movesOf range es 2 1 + (openedNotTakenOf range es).card) =
      (run range es {}).correct + (movesOf range es 3 3 + (endedAt range es 3).card) := by
  have hsum := Finset.sum_congr (rfl : range.branches es = _) fun ip _ =>
    chooserMisses_add_last (range.outcomes es ip)
  rw [Finset.sum_add_distrib, Finset.sum_add_distrib, Finset.sum_add_distrib,
    Finset.sum_add_distrib] at hsum
  obtain ⟨hpredictions, -, hpredH⟩ := predictions_run range es
  have hmiss1 := miss1_run range es
  have hmissH := missH_run range es
  rw [card_endedAt]
  unfold movesOf openedNotTakenOf
  rw [Finset.card_filter]
  omega

/-- Choosing pays exactly if the hybrid is right at least as often as each component. -/
theorem choicePays_iff : ChoicePays range es ↔
    (run range es {}).correct ≤ (run range es {}).correctH ∧
      (run range es {}).correct2 ≤ (run range es {}).correctH := by
  have htwo := correctH_add_two range es
  have hlast := correctH_add_last range es
  constructor
  · rintro ⟨honLast, honTwo⟩
    constructor <;> omega
  · rintro ⟨h1, h2⟩
    constructor <;> omega

end

/-! ## Selectors that keep to their side -/

/-- The next event of a branch takes its selector to the other side, or is a first
execution that is not taken. -/
def Slice.Crosses (c : Slice) (outcome : Bool) : Prop :=
  match c.bht with
  | none => outcome = false
  | some last =>
      last ≠ c.pred2Val ∧ c.selector.getD 2 = if c.pred2Val = outcome then 1 else 2

/-- What does not cross is not charged. -/
theorem Tracks.uncharged {c : Slice} {r : Replay} (h : Tracks c r) {outcome : Bool}
    (hkeeps : ¬ c.Crosses outcome) : Replay.moved 1 2 r outcome = 0 ∧
      Replay.moved 2 1 r outcome = 0 ∧ Replay.openedNotTaken r outcome = 0 := by
  have hselector : ∀ v : UInt8, c.selector.getD 2 = v ↔ r.chooser.val = v.toNat := by
    intro v
    rw [← h.selector, Nat.cast_inj, UInt8.toNat_inj]
  unfold Slice.Crosses at hkeeps
  rw [h.bht, h.pred2Val_eq] at hkeeps
  cases hd : r.disputed with
  | false =>
      refine ⟨Replay.moved_of_undisputed outcome hd 1 2, Replay.moved_of_undisputed outcome hd 2 1,
        if_neg ?_⟩
      rintro ⟨hlast, rfl⟩
      exact hkeeps (by rw [hlast])
  | true =>
      rw [Replay.last_of_disputed hd] at hkeeps
      have hside : ¬ c.selector.getD 2 = if r.twoPred = outcome then 1 else 2 := by
        simpa using hkeeps
      have hval := Replay.val_step_of_disputed outcome hd
      refine ⟨if_neg ?_, if_neg ?_, Replay.openedNotTaken_of_disputed outcome hd⟩
      · rintro ⟨-, hone, htwo⟩
        split at hval
        · next hright =>
            rw [if_pos hright, hselector] at hside
            exact hside hone
        · omega
      · rintro ⟨-, htwo, hone⟩
        split at hval
        · omega
        · next hwrong =>
            rw [if_neg hwrong, hselector] at hside
            exact hside htwo

theorem outcomes_concat (range : Range) (es : List Event) (e : Event) (ip : ADDRINT) :
    range.outcomes (es ++ [e]) ip =
      range.outcomes es ip ++ if range.key e = some ip then [e.isTaken] else [] := by
  rw [range.outcomes_append]
  congr 1
  simp only [Range.outcomes, range.eventsOf_cons]
  split <;> rfl

/-- In a run without crossings no branch is charged for anything. -/
theorem uncharged_run {range : Range} {es : List Event}
    (hkeeps : ∀ past e, past ++ [e] <+: es → range.Contains e.ip →
      ¬ (slice (run range past {}) e.ip).Crosses e.isTaken) (ip : ADDRINT) :
    moves 1 2 (range.outcomes es ip) = 0 ∧ moves 2 1 (range.outcomes es ip) = 0 ∧
      runCost Replay.step Replay.openedNotTaken Replay.cold (range.outcomes es ip) = 0 := by
  induction es using List.reverseRecOn with
  | nil => exact ⟨rfl, rfl, rfl⟩
  | append_singleton es e ih =>
      obtain ⟨hes, he⟩ := forall_prefix_concat_iff.mp hkeeps
      obtain ⟨h12, h21, hopened⟩ := ih hes
      rw [outcomes_concat]
      split
      · next hkey =>
          obtain ⟨hin, rfl⟩ := range.key_eq_some_iff.mp hkey
          obtain ⟨hone, htwo, hfirst⟩ := (tracks_run range es e.ip).uncharged (he hin)
          unfold moves at h12 h21 ⊢
          rw [runCost_concat, runCost_concat, runCost_concat, h12, h21, hopened]
          exact ⟨(Nat.zero_add _).trans hone, (Nat.zero_add _).trans htwo,
            (Nat.zero_add _).trans hfirst⟩
      · rw [List.append_nil]
        exact ⟨h12, h21, hopened⟩

/-- **Choosing pays where no selector changes sides** and no branch starts not taken. -/
theorem choicePays_of_keeps {range : Range} {es : List Event}
    (hkeeps : ∀ past e, past ++ [e] <+: es → range.Contains e.ip →
      ¬ (slice (run range past {}) e.ip).Crosses e.isTaken) : ChoicePays range es := by
  have hcharged := uncharged_run hkeeps
  have h12 : movesOf range es 1 2 = 0 := Finset.sum_eq_zero fun ip _ => (hcharged ip).1
  have h21 : movesOf range es 2 1 = 0 := Finset.sum_eq_zero fun ip _ => (hcharged ip).2.1
  have hopened : openedNotTakenOf range es = ∅ := by
    refine Finset.filter_eq_empty_iff.mpr fun ip _ hfirst => ?_
    have hzero := (hcharged ip).2.2
    rw [runCost_openedNotTaken, if_pos hfirst] at hzero
    exact Nat.one_ne_zero hzero
  exact ⟨by rw [h12]; exact Nat.zero_le _, by rw [h21, hopened]; exact Nat.zero_le _⟩

end BranchPrediction.MyBranch
