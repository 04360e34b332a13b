import BranchPrediction.Automata.Saturating
import BranchPrediction.MyBranch.Step

/-!
# What a branch's outcome string decides

The three predictors of `MyBranch` as they are meant, one branch at a time and
without any table: the last outcome, a 2-bit counter started at 2, and a chooser
started at 2 that follows the first at 0 and 1 and the second at 2 and 3.
`Replay` runs the three together on an outcome string.

`Tracks` relates the map entries of a branch to a replay, and `Tracks.record`
is the simulation: whatever the stream does to other branches, the entries of a
branch track the replay of its own outcomes.
-/

namespace BranchPrediction.MyBranch

open Automata

/-- A 2-bit counter in the state a branch starts in. -/
def weaklyTaken : SatCounter 0 3 := ⟨2, by decide, by decide⟩

/-- The adjacent positions of an outcome string where the outcome changes. -/
def changes : List Bool → ℕ
  | a :: b :: l => (if a = b then 0 else 1) + changes (b :: l)
  | _ => 0

/-- The misses of a 2-bit counter on an outcome string. -/
def twoBitMisses (l : List Bool) : ℕ :=
  runCost (fun c b => c.train b) (miss id (SatCounter.predict 2)) weaklyTaken l

/-- The predictors of one branch: its last outcome, its counter and its chooser. -/
@[ext]
structure Replay where
  last : Option Bool
  two : SatCounter 0 3
  chooser : SatCounter 0 3
deriving DecidableEq

namespace Replay

/-- A branch that was never executed. -/
def cold : Replay := ⟨none, weaklyTaken, weaklyTaken⟩

/-- The counter's prediction. -/
def twoPred (r : Replay) : Bool :=
  r.two.predict 2

/-- The chooser's prediction. -/
def chosen (r : Replay) : Bool :=
  if r.chooser.val ≤ 1 then r.last.getD true else r.twoPred

/-- One outcome.  The chooser moves when the two disagree, towards the one that
was right. -/
def step (r : Replay) (outcome : Bool) : Replay where
  last := some outcome
  two := r.two.train outcome
  chooser :=
    match r.last with
    | none => r.chooser
    | some a => if a = r.twoPred then r.chooser else r.chooser.train (r.twoPred = outcome)

/-- A miss of the last-outcome prediction, which a first execution cannot be. -/
def miss1 (r : Replay) (outcome : Bool) : ℕ :=
  match r.last with
  | none => 0
  | some a => if a = outcome then 0 else 1

/-- The predictors after an outcome string. -/
def after (l : List Bool) : Replay :=
  l.foldl step cold

theorem last_after (l : List Bool) : (after l).last = l.getLast? := by
  induction l using List.reverseRecOn with
  | nil => rfl
  | append_singleton l b _ => rw [after, List.foldl_concat, List.getLast?_concat]; rfl

end Replay

/-- The misses of the chooser on an outcome string. -/
def chooserMisses (l : List Bool) : ℕ :=
  runCost Replay.step (miss id Replay.chosen) Replay.cold l

theorem runCost_miss1_of_last (r : Replay) (a : Bool) (hr : r.last = some a) (l : List Bool) :
    runCost Replay.step Replay.miss1 r l = changes (a :: l) := by
  induction l generalizing r a with
  | nil => rfl
  | cons b l ih => rw [runCost_cons, ih (r.step b) b rfl, Replay.miss1, hr, changes]

theorem runCost_miss1 (l : List Bool) :
    runCost Replay.step Replay.miss1 Replay.cold l = changes l := by
  cases l with
  | nil => rfl
  | cons a l =>
      rw [runCost_cons, runCost_miss1_of_last (Replay.cold.step a) a rfl]
      exact Nat.zero_add _

theorem runCost_twoPred (l : List Bool) :
    runCost Replay.step (miss id Replay.twoPred) Replay.cold l = twoBitMisses l := by
  have h : runCost Replay.step (miss id Replay.twoPred) Replay.cold l =
      runCost (fun c b => c.train b) (miss id (SatCounter.predict 2)) Replay.cold.two (l.map id) :=
    runCost_simulation (R := fun r c => r.two = c) id (fun _ _ _ h => h ▸ rfl)
      (fun _ _ _ h => h ▸ rfl) rfl l
  rwa [List.map_id] at h

/-! ## The entries track the replay -/

/-- The entries of a branch hold the state of a replay. -/
structure Tracks (c : Slice) (r : Replay) : Prop where
  bht : c.bht = r.last
  bht2_isSome : c.bht2.isSome = r.last.isSome
  bht2 : ((c.bht2.getD 2).toNat : ℤ) = r.two.val
  selector_isSome : c.selector.isSome = r.last.isSome
  selector : ((c.selector.getD 2).toNat : ℤ) = r.chooser.val
  cold : r.last = none → r = Replay.cold

/-- The entries of a branch that was never executed. -/
def Slice.empty : Slice := ⟨none, none, none, none, none⟩

theorem slice_initial (ip : ADDRINT) : slice {} ip = Slice.empty := by
  simp [slice, Slice.empty]

theorem tracks_empty : Tracks Slice.empty Replay.cold :=
  ⟨rfl, rfl, rfl, rfl, rfl, fun _ => rfl⟩

theorem toNat_bump_eq {s : UInt8} {k : SatCounter 0 3} (h : (s.toNat : ℤ) = k.val)
    (outcome : Bool) : ((bump outcome s).toNat : ℤ) = (k.train outcome).val := by
  have hle := k.le_hi
  rw [toNat_bump (by omega), SatCounter.val_train, ← h]
  split <;> omega

theorem toNat_moveSelector {sel : UInt8} {k : SatCounter 0 3} (h : (sel.toNat : ℤ) = k.val)
    (pred1 pred2Val actual : Bool) :
    ((moveSelector true true pred1 pred2Val actual sel).toNat : ℤ) =
      (if pred1 = pred2Val then k else k.train (pred2Val = actual)).val := by
  -- where the two disagree, moving the selector is bumping it
  have hmove : moveSelector true true pred1 pred2Val actual sel =
      if pred1 = pred2Val then sel else bump (pred2Val = actual) sel := by
    cases pred1 <;> cases pred2Val <;> cases actual <;> simp [moveSelector, bump]
  rw [hmove]
  split
  · exact h
  · exact toNat_bump_eq h _

section

variable {c : Slice} {r : Replay} (h : Tracks c r)
include h

theorem Tracks.pred1_eq {a : Bool} (hr : r.last = some a) (actual : Bool) :
    c.pred1 actual = a := by
  rw [Slice.pred1, h.bht, hr, Option.getD_some]

theorem Tracks.pred1_cold (hr : r.last = none) (actual : Bool) : c.pred1 actual = actual := by
  rw [Slice.pred1, h.bht, hr, Option.getD_none]

theorem Tracks.pred2Val_eq : c.pred2Val = r.twoPred := by
  have h2 : c.bht2.getD 2 ≥ 2 ↔ (2 : ℤ) ≤ r.two.val := by
    rw [← h.bht2, ge_iff_le, UInt8.le_iff_toNat_le]
    exact Nat.ofNat_le_cast.symm
  simp only [Slice.pred2Val, Replay.twoPred, SatCounter.predict, h2]

/-- The hybrid prediction never reads the outcome: the one reading that would,
on a first execution, is not chosen there. -/
theorem Tracks.finalPred_eq (actual : Bool) : c.finalPred actual = r.chosen := by
  have h1 : c.selector.getD 2 ≤ 1 ↔ r.chooser.val ≤ 1 := by
    rw [← h.selector, UInt8.le_iff_toNat_le]
    exact Nat.cast_le_one.symm
  unfold Slice.finalPred Replay.chosen
  simp only [h1, h.pred2Val_eq]
  cases hr : r.last with
  | none => rw [h.cold hr]; rfl
  | some a => rw [h.pred1_eq hr]; rfl

/-- **The simulation of one branch.** -/
theorem Tracks.record (e : Event) : Tracks (c.record e) (r.step e.isTaken) where
  bht := rfl
  bht2_isSome := rfl
  bht2 := toNat_bump_eq h.bht2 _
  selector_isSome := rfl
  selector := by
    simp only [Slice.record, Option.getD_some, Replay.step]
    cases hr : r.last with
    | none =>
        rw [h.bht, hr]
        exact h.selector
    | some a =>
        rw [h.bht, h.bht2_isSome, hr, h.pred1_eq hr, h.pred2Val_eq]
        exact toNat_moveSelector h.selector _ _ _
  cold := nofun

end

theorem Tracks.foldl {c : Slice} {r : Replay} (h : Tracks c r) (l : List Event) :
    Tracks (l.foldl Slice.record c) ((l.map Event.isTaken).foldl Replay.step r) :=
  foldl_simulation Event.isTaken (fun _ _ a h => h.record a) h l

theorem tracks_run (range : Range) (es : List Event) (ip : ADDRINT) :
    Tracks (slice (run range es {}) ip) (Replay.after (range.outcomes es ip)) := by
  rw [slice_run, slice_initial]
  exact tracks_empty.foldl _

/-! ### The misses of tracked entries -/

section

variable {c : Slice} {r : Replay} (h : Tracks c r) (l : List Event)
include h

theorem Tracks.runCost_pred1 :
    runCost Slice.record (wrong Slice.pred1) c l =
      runCost Replay.step Replay.miss1 r (l.map Event.isTaken) := by
  apply runCost_simulation _ (fun _ _ a h => h.record a) _ h
  intro c r a h
  unfold wrong Replay.miss1
  cases hr : r.last with
  | none => rw [h.pred1_cold hr, if_pos rfl]
  | some b => rw [h.pred1_eq hr]

theorem Tracks.runCost_pred2Val :
    runCost Slice.record (wrong fun c _ => c.pred2Val) c l =
      runCost Replay.step (miss id Replay.twoPred) r (l.map Event.isTaken) := by
  apply runCost_simulation _ (fun _ _ a h => h.record a) _ h
  intro c r a h
  rw [wrong, h.pred2Val_eq]
  rfl

theorem Tracks.runCost_finalPred :
    runCost Slice.record (wrong Slice.finalPred) c l =
      runCost Replay.step (miss id Replay.chosen) r (l.map Event.isTaken) := by
  apply runCost_simulation _ (fun _ _ a h => h.record a) _ h
  intro c r a h
  rw [wrong, h.finalPred_eq]
  rfl

end

end BranchPrediction.MyBranch
