import BranchPrediction.MyTage.Usefulness

/-!
# Provider and alternate

A predictor with several tables lets the highest component that matches provide
the prediction, unless that entry has not proved useful; then the next matching
component below it, the alternate, does.  `ruled` is this rule, for any number
of tables.

`RecordBranch` settles what the alternate is before it knows the provider: the
entry of `T1` if that hits.  Below a provider in `T2` this is the rule.  A
provider in `T1`, though, is its own alternate, and its usefulness never keeps
it from predicting.
-/

namespace BranchPrediction.MyTage

/-! ## The rule -/

/-- A matching entry: the direction it predicts, and whether it has proved useful. -/
structure Rung where
  direction : Bool
  useful : Bool

/-- The direction of the highest of the matching entries, or else of the base. -/
def highest (base : Bool) : List Rung → Bool
  | [] => base
  | rung :: _ => rung.direction

/-- The prediction from the matching entries, highest first: the provider's if
it has proved useful, and otherwise the alternate's. -/
def ruled (base : Bool) : List Rung → Bool
  | [] => base
  | provider :: below => if provider.useful then provider.direction else highest base below

/-! ## The rule and the code -/

namespace State

variable (s : State) (ip : ADDRINT)

/-- The entries that match, highest first. -/
def rungs : List Rung :=
  let rung (entry : TageEntry) : Rung := ⟨entry.taken, entry.u ≠ 0⟩
  (if s.hit2 ip then [rung (s.deref (.t2 (s.idx2 ip)))] else []) ++
    if s.hit1 ip then [rung (s.deref (.t1 (s.idx1 ip)))] else []

/-- What the rule predicts, over a base counter that is read as 2 when absent. -/
def rule : Bool :=
  ruled (s.t0[ip]?.getD 2 ≥ 2) (s.rungs ip)

/-- `T1` provides without having proved useful, and against the base counter. -/
def OwnAlternate : Prop :=
  s.hit2 ip = false ∧ s.hit1 ip = true ∧ (s.deref (.t1 (s.idx1 ip))).u = 0 ∧
    (s.deref (.t1 (s.idx1 ip))).taken ≠ s.basePred ip

instance : Decidable (s.OwnAlternate ip) :=
  inferInstanceAs (Decidable (_ ∧ _ ∧ _ ∧ _))

end State

/-- The rule by the four combinations of hits. -/
theorem rule_eq (s : State) (ip : ADDRINT) : s.rule ip =
    if s.hit2 ip = true ∧ (s.deref (.t2 (s.idx2 ip))).u ≠ 0 then
      (s.deref (.t2 (s.idx2 ip))).taken
    else if s.hit1 ip = true ∧ (s.hit2 ip = true ∨ (s.deref (.t1 (s.idx1 ip))).u ≠ 0) then
      (s.deref (.t1 (s.idx1 ip))).taken
    else s.basePred ip := by
  have hbase : (s.t0[ip]?.getD 2 ≥ 2 : Bool) = s.basePred ip := lookup_basePred s ip
  unfold State.rule State.rungs
  rw [hbase]
  cases s.hit2 ip <;> cases s.hit1 ip <;> simp [ruled, highest]

/-- The code by the four combinations of hits. -/
theorem prediction_eq (s : State) (ip : ADDRINT) : s.prediction ip =
    if s.hit2 ip = true ∧ (s.deref (.t2 (s.idx2 ip))).u ≠ 0 then
      (s.deref (.t2 (s.idx2 ip))).taken
    else if s.hit1 ip = true then (s.deref (.t1 (s.idx1 ip))).taken
    else s.basePred ip := by
  have halt : s.altPred ip =
      if s.hit1 ip = true then (s.deref (.t1 (s.idx1 ip))).taken else s.basePred ip := rfl
  rw [← halt]
  by_cases h2 : s.hit2 ip = true
  · have hp : s.provider ip = some (.t2 (s.idx2 ip)) := provider_eq_some_iff.mpr (Or.inl ⟨rfl, h2⟩)
    by_cases hu : (s.deref (.t2 (s.idx2 ip))).u = 0
    · rw [if_neg fun h => h.2 hu, prediction_of_useless hp hu]
    · rw [if_pos ⟨h2, hu⟩, prediction_of_useful hp hu]
  · rw [if_neg fun h => h2 h.1, halt]
    rw [Bool.not_eq_true] at h2
    by_cases h1 : s.hit1 ip = true
    · have hp : s.provider ip = some (.t1 (s.idx1 ip)) :=
        provider_eq_some_iff.mpr (Or.inr ⟨rfl, h1, h2⟩)
      rw [if_pos h1, prediction_of_t1 hp]
    · rw [if_neg h1, State.prediction, State.provider, h2]
      simp [h1]

/-- **Where provider and alternate are different components.**  The prediction
that is scored follows the rule exactly if it is not made by a useless entry of
`T1` against the base counter. -/
theorem prediction_eq_rule_iff (range : Range) (es : List Event) (ip : ADDRINT) :
    let s := run range es {}
    s.prediction ip = s.rule ip ↔ ¬ s.OwnAlternate ip := by
  intro s
  rw [prediction_eq, rule_eq]
  unfold State.OwnAlternate
  by_cases hown2 : s.hit2 ip = true ∧ (s.deref (.t2 (s.idx2 ip))).u ≠ 0
  · simp [hown2]
  · simp only [if_neg hown2]
    cases h1 : s.hit1 ip with
    | false => simp
    | true =>
        cases h2 : s.hit2 ip with
        | true => simp
        | false =>
            by_cases hu : (s.deref (.t1 (s.idx1 ip))).u = 0
            · simp [hu]
            · simp [hu]

/-- A branch that turns once leaves a useless entry for it in `T1`, and comes
back to the history of eight it turned under when its base counter has recovered. -/
def turningStream : List Event :=
  [⟨0x401136, 0, false⟩, ⟨0x401136, 0, true⟩] ++ List.replicate 8 ⟨0x401136, 0, false⟩

/-- The rule has the base counter predict not taken; the code predicts taken. -/
theorem own_alternate_predicts : ¬ ∀ (range : Range) (es : List Event) (ip : ADDRINT),
    range.Contains ip → (run range es {}).prediction ip = (run range es {}).rule ip := by
  intro h
  have hown : (run ⟨0x400000, 0x4fffff⟩ turningStream {}).OwnAlternate 0x401136 := by
    decide +kernel
  exact (prediction_eq_rule_iff ⟨0x400000, 0x4fffff⟩ turningStream 0x401136).mp
    (h _ _ _ (by decide)) hown

end BranchPrediction.MyTage
