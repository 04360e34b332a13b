import BranchPrediction.Cpp.Map
import Mathlib.Algebra.Order.Group.Nat
import Mathlib.Data.Finset.Basic

/-!
# Branch events

What Pin hands to the analysis routine of either tool: the address of a branch
instruction, its target and whether it is taken.  `Image` writes the bounds of
the main executable before the first of its branches runs, and nothing writes
them afterwards, so a run has one `Range` throughout.

A branch outside the range leaves both tools untouched; `Range.key` is the
branch an event counts for.
-/

namespace BranchPrediction

/-- Addresses of the instrumented program. -/
abbrev ADDRINT := UInt64

/-- Structure to hold individual branch trace info. -/
structure BranchTrace where
  outcome : Char
  target : ADDRINT
deriving DecidableEq

/-- `low` and `high`, as `Image` sets them. -/
structure Range where
  low : ADDRINT
  high : ADDRINT

/-- `Image`: only the main executable sets the range. -/
def image (isMainExecutable : Bool) (lowAddress highAddress : ADDRINT) (range : Range) : Range :=
  if isMainExecutable then ⟨lowAddress, highAddress⟩ else range

/-- One call of `RecordBranch`. -/
structure Event where
  ip : ADDRINT
  target : ADDRINT
  isTaken : Bool
deriving DecidableEq

namespace Event

/-- The trace record of an event: `'T'` or `'N'`, and the target. -/
def trace (e : Event) : BranchTrace :=
  ⟨if e.isTaken then 'T' else 'N', e.target⟩

end Event

/-- A stream that has run up to an event of a longer one has run up to its last
event, or up to one before. -/
theorem concat_prefix_concat_iff {past es : List Event} {e' e : Event} :
    past ++ [e'] <+: es ++ [e] ↔ past = es ∧ e' = e ∨ past ++ [e'] <+: es := by
  rw [List.prefix_concat_iff]
  apply or_congr_left
  constructor
  · intro heq
    obtain ⟨hpast, hlast⟩ := List.append_inj' heq rfl
    exact ⟨hpast, List.singleton_injective hlast⟩
  · rintro ⟨rfl, rfl⟩
    rfl

/-- What holds of every event of a longer stream, after the events before it. -/
theorem forall_prefix_concat_iff {P : List Event → Event → Prop} {es : List Event} {e : Event} :
    (∀ past e', past ++ [e'] <+: es ++ [e] → P past e') ↔
      (∀ past e', past ++ [e'] <+: es → P past e') ∧ P es e := by
  simp only [concat_prefix_concat_iff]
  constructor
  · intro h
    exact ⟨fun past e' hbefore => h past e' (Or.inr hbefore), h es e (Or.inl ⟨rfl, rfl⟩)⟩
  · rintro ⟨hes, he⟩ past e' (⟨rfl, rfl⟩ | hbefore)
    · exact he
    · exact hes past e' hbefore

theorem not_concat_prefix_nil {past : List Event} {e : Event} : ¬ past ++ [e] <+: [] := by
  intro h
  exact List.concat_ne_nil e past (List.prefix_nil.mp h)

/-- A count that starts at zero and grows by at most one an event passes through
every value on its way. -/
theorem exists_prefix_of_le (count : List Event → ℕ) (h0 : count [] = 0)
    (hcount : ∀ es e, count (es ++ [e]) ≤ count es + 1) {n : ℕ} {es : List Event}
    (hn : n ≤ count es) : ∃ past, past <+: es ∧ count past = n := by
  induction es using List.reverseRecOn with
  | nil => exact ⟨[], List.prefix_refl _, by omega⟩
  | append_singleton es e ih =>
      rcases Nat.lt_or_ge (count es) n with hlt | hle
      · have := hcount es e
        exact ⟨es ++ [e], List.prefix_refl _, by omega⟩
      · obtain ⟨past, hpast, hcountPast⟩ := ih hle
        exact ⟨past, hpast.trans (List.prefix_append _ _), hcountPast⟩

namespace Range

variable (range : Range)

/-- The addresses `RecordBranch` does not return early on. -/
def Contains (ip : ADDRINT) : Prop :=
  range.low ≤ ip ∧ ip ≤ range.high

instance (ip : ADDRINT) : Decidable (range.Contains ip) :=
  inferInstanceAs (Decidable (_ ∧ _))

theorem contains_iff_not_skipped (ip : ADDRINT) :
    range.Contains ip ↔ ¬ (ip < range.low ∨ ip > range.high) := by
  simp [Contains]

/-- The branch an event counts for. -/
def key (e : Event) : Option ADDRINT :=
  if range.Contains e.ip then some e.ip else none

theorem key_of_contains {e : Event} (h : range.Contains e.ip) : range.key e = some e.ip :=
  if_pos h

theorem key_of_not_contains {e : Event} (h : ¬ range.Contains e.ip) : range.key e = none :=
  if_neg h

theorem key_eq_some_iff {e : Event} {ip : ADDRINT} :
    range.key e = some ip ↔ range.Contains e.ip ∧ e.ip = ip := by
  unfold key
  split <;> simp [*]

/-- The events of one branch, in order. -/
def eventsOf (es : List Event) (ip : ADDRINT) : List Event :=
  es.filter fun e => range.key e = some ip

/-- The outcome string of one branch. -/
def outcomes (es : List Event) (ip : ADDRINT) : List Bool :=
  (range.eventsOf es ip).map Event.isTaken

/-- The in-range branches a stream touches. -/
def branches (es : List Event) : Finset ADDRINT :=
  (es.filterMap range.key).toFinset

/-- The events of a stream that count. -/
def inRange (es : List Event) : List Event :=
  es.filter fun e => range.Contains e.ip

/-- The outcomes of all events that count, in order. -/
def path (es : List Event) : List Bool :=
  (range.inRange es).map Event.isTaken

theorem eventsOf_cons (e : Event) (es : List Event) (ip : ADDRINT) :
    range.eventsOf (e :: es) ip =
      if range.key e = some ip then e :: range.eventsOf es ip else range.eventsOf es ip := by
  simp only [eventsOf, List.filter_cons, decide_eq_true_eq]

theorem outcomes_append (es es' : List Event) (ip : ADDRINT) :
    range.outcomes (es ++ es') ip = range.outcomes es ip ++ range.outcomes es' ip := by
  simp [outcomes, eventsOf]

/-- A branch that runs alone. -/
theorem outcomes_map {ip : ADDRINT} (h : range.Contains ip) (target : ADDRINT) (l : List Bool) :
    range.outcomes (l.map fun b => ⟨ip, target, b⟩) ip = l := by
  induction l with
  | nil => rfl
  | cons b l ih =>
      have hkey : range.key ⟨ip, target, b⟩ = some ip := range.key_of_contains h
      rw [List.map_cons, outcomes, eventsOf_cons, if_pos hkey, List.map_cons, ← outcomes, ih]

theorem mem_branches_iff {es : List Event} {ip : ADDRINT} :
    ip ∈ range.branches es ↔ ∃ e ∈ es, range.key e = some ip := by
  simp [branches]

theorem eventsOf_eq_nil {es : List Event} {ip : ADDRINT} (h : ip ∉ range.branches es) :
    range.eventsOf es ip = [] := by
  simpa [eventsOf, mem_branches_iff] using h

theorem outcomes_eq_nil {es : List Event} {ip : ADDRINT} (h : ip ∉ range.branches es) :
    range.outcomes es ip = [] := by
  rw [outcomes, range.eventsOf_eq_nil h, List.map_nil]

theorem mem_branches_iff_outcomes {es : List Event} {ip : ADDRINT} :
    ip ∈ range.branches es ↔ range.outcomes es ip ≠ [] := by
  simp [outcomes, eventsOf, mem_branches_iff]

theorem length_path_le (es : List Event) : (range.path es).length ≤ es.length := by
  rw [path, List.length_map]
  exact List.length_filter_le ..

theorem path_append (es es' : List Event) :
    range.path (es ++ es') = range.path es ++ range.path es' := by
  simp [path, inRange]

theorem path_concat_of_contains (es : List Event) {e : Event} (h : range.Contains e.ip) :
    range.path (es ++ [e]) = range.path es ++ [e.isTaken] := by
  simp [path, inRange, h]

theorem length_path_concat_of_contains (es : List Event) {e : Event} (h : range.Contains e.ip) :
    (range.path (es ++ [e])).length = (range.path es).length + 1 := by
  rw [path_concat_of_contains range es h, List.length_append, List.length_singleton]

theorem path_concat_of_not_contains (es : List Event) {e : Event} (h : ¬ range.Contains e.ip) :
    range.path (es ++ [e]) = range.path es := by
  simp [path, inRange, h]

end Range

end BranchPrediction
