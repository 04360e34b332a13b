import BranchPrediction.MyTage.Writes

/-!
# Whether usefulness is earned

A usefulness is meant to tell how often an entry was right where it mattered, and
it protects the entry from being replaced.  `RecordBranch` moves it with the
prediction that was made, though, and without any usefulness that prediction is
the alternate's.  So an entry of `T2` that is wrong is `Credited` for an
alternate that is right, and nothing else is ever raised without being right.

What lowers a usefulness is always the entry's own mistake: an entry with some
usefulness left is what the prediction was made from.
-/

namespace BranchPrediction.MyTage

variable {range : Range} {s : State} {e : Event} {ip : ADDRINT} {p : Pointer}

/-- One event raises and lowers a usefulness for what the entry itself predicted. -/
structure Earned (range : Range) (s : State) (e : Event) : Prop where
  raised : ∀ p, (s.deref p).u < ((step range s e).deref p).u →
    s.provider e.ip = some p ∧ (s.deref p).taken = e.isTaken
  /-- Where nothing is halved. -/
  lowered : (s.clock + 1) % 1024 ≠ 0 → ∀ p, ((step range s e).deref p).u < (s.deref p).u →
    s.provider e.ip = some p ∧ (s.deref p).taken ≠ e.isTaken
  /-- And before any halving. -/
  lowered_trained : range.Contains e.ip → ∀ p,
    ((s.trained e.ip e.isTaken).deref p).u < (s.deref p).u →
      s.provider e.ip = some p ∧ (s.deref p).taken ≠ e.isTaken
  shielded : ∀ p, (s.deref p).u = 0 → ((step range s e).deref p).u ≠ 0 →
    (s.deref p).taken = e.isTaken

/-- The event finds an entry of `T2` wrong that has no usefulness, and the
alternate right; and it is not one after which everything is halved. -/
structure Credited (range : Range) (s : State) (e : Event) : Prop where
  contains : range.Contains e.ip
  hit2 : s.hit2 e.ip
  u : (s.deref (.t2 (s.idx2 e.ip))).u = 0
  wrong : (s.deref (.t2 (s.idx2 e.ip))).taken ≠ e.isTaken
  alternate : s.altPred e.ip = e.isTaken
  unhalved : (s.clock + 1) % 1024 ≠ 0

instance (range : Range) (s : State) (e : Event) : Decidable (Credited range s e) :=
  decidable_of_iff (_ ∧ _ ∧ _ ∧ _ ∧ _ ∧ _)
    ⟨fun ⟨hc, h2, hu, hw, ha, hn⟩ => ⟨hc, h2, hu, hw, ha, hn⟩,
      fun h => ⟨h.contains, h.hit2, h.u, h.wrong, h.alternate, h.unhalved⟩⟩

/-! ## What the prediction is made from -/

theorem prediction_of_useful (h : s.provider ip = some p) (hu : (s.deref p).u ≠ 0) :
    s.prediction ip = (s.deref p).taken := by
  unfold State.prediction
  rw [h]
  exact if_neg hu

theorem prediction_of_useless (h : s.provider ip = some p) (hu : (s.deref p).u = 0) :
    s.prediction ip = s.altPred ip := by
  unfold State.prediction
  rw [h]
  exact if_pos hu

/-- Of a provider in `T1` the alternate is its own counter. -/
theorem prediction_of_t1 {i : Fin t1Size} (h : s.provider ip = some (.t1 i)) :
    s.prediction ip = (s.deref (.t1 i)).taken := by
  by_cases hu : (s.deref (.t1 i)).u = 0
  · rw [prediction_of_useless h hu]
    rcases provider_eq_some_iff.mp h with ⟨heq, -⟩ | ⟨heq, h1, -⟩
    · cases heq
    · obtain rfl := Pointer.t1.inj heq
      exact if_pos h1
  · exact prediction_of_useful h hu

/-! ## One event -/

theorem u_eq_iff {u : UInt8} : u = 0 ↔ u.toNat = 0 := UInt8.toNat_inj.symm

/-- A usefulness that an event raises is its provider's, and the prediction was right. -/
theorem provider_of_raised (hs : s.Valid) (he : range.Contains e.ip)
    (h : (s.deref p).u < ((step range s e).deref p).u) :
    s.provider e.ip = some p ∧ s.prediction e.ip = e.isTaken ∧
      ((s.deref p).u = 0 → (s.clock + 1) % 1024 ≠ 0) := by
  rw [UInt8.lt_iff_toNat_lt, deref_step he, TageEntry.toNat_u_halve] at h
  have hlt : (s.deref p).u.toNat < ((s.trained e.ip e.isTaken).deref p).u.toNat := by
    split at h <;> omega
  by_cases ha : s.allocated e.ip e.isTaken = some p
  · rw [deref_trained_of_allocated ha] at hlt
    exact absurd hlt (Nat.not_lt_zero _)
  by_cases hp : s.provider e.ip = some p
  · rw [deref_trained_of_provider hp, TageEntry.toNat_updateEntry (hs.deref p)] at h hlt
    have hright : s.prediction e.ip = e.isTaken := by
      by_contra hwrong
      rw [if_neg hwrong] at hlt
      omega
    refine ⟨hp, hright, ?_⟩
    intro hu hdue
    -- one is halved to zero again
    rw [if_pos hright, u_eq_iff.mp hu, decide_eq_true hdue, if_pos rfl] at h
    exact absurd h (by decide)
  · rw [deref_trained_of_neither ha hp] at hlt
    exact absurd hlt (Nat.lt_irrefl _)

/-- A usefulness that training lowers is its provider's, and the prediction was wrong. -/
theorem provider_of_lowered (hs : s.Valid)
    (h : ((s.trained e.ip e.isTaken).deref p).u < (s.deref p).u) :
    s.provider e.ip = some p ∧ s.prediction e.ip ≠ e.isTaken ∧ (s.deref p).u ≠ 0 := by
  rw [UInt8.lt_iff_toNat_lt] at h
  have hu : (s.deref p).u ≠ 0 := by
    rw [ne_eq, u_eq_iff]
    omega
  by_cases ha : s.allocated e.ip e.isTaken = some p
  · exact absurd (allocated_spec ha).2.2.2.1 hu
  by_cases hp : s.provider e.ip = some p
  · refine ⟨hp, ?_, hu⟩
    intro hright
    have hle := (hs.deref p).u_le
    rw [deref_trained_of_provider hp, TageEntry.toNat_updateEntry (hs.deref p), if_pos hright] at h
    omega
  · rw [deref_trained_of_neither ha hp] at h
    exact absurd h (Nat.lt_irrefl _)

/-- And that provider was wrong itself. -/
theorem wrong_of_lowered (hs : s.Valid)
    (h : ((s.trained e.ip e.isTaken).deref p).u < (s.deref p).u) :
    s.provider e.ip = some p ∧ (s.deref p).taken ≠ e.isTaken := by
  obtain ⟨hp, hwrong, hu⟩ := provider_of_lowered hs h
  refine ⟨hp, ?_⟩
  rwa [← prediction_of_useful hp hu]

/-- Without a halving an event lowers what its training does. -/
theorem lowered_trained_of_unhalved (hdue : (s.clock + 1) % 1024 ≠ 0)
    (h : ((step range s e).deref p).u < (s.deref p).u) :
    ((s.trained e.ip e.isTaken).deref p).u < (s.deref p).u := by
  by_cases he : range.Contains e.ip
  · rwa [deref_step he, TageEntry.halve, decide_eq_false hdue] at h
  · rw [step_of_not_contains he] at h
    exact absurd h (Nat.lt_irrefl _)

/-- The provider was right itself where the prediction was, unless it is credited. -/
theorem taken_of_right (he : range.Contains e.ip) (hnot : ¬ Credited range s e)
    (hp : s.provider e.ip = some p) (hright : s.prediction e.ip = e.isTaken)
    (hdue : (s.deref p).u = 0 → (s.clock + 1) % 1024 ≠ 0) : (s.deref p).taken = e.isTaken := by
  by_cases hu : (s.deref p).u = 0
  · rcases provider_eq_some_iff.mp hp with ⟨rfl, h2⟩ | ⟨rfl, -, -⟩
    · by_contra hwrong
      rw [prediction_of_useless hp hu] at hright
      exact hnot ⟨he, h2, hu, hwrong, hright, hdue hu⟩
    · rwa [prediction_of_t1 hp] at hright
  · rwa [prediction_of_useful hp hu] at hright

theorem Credited.raised (hs : s.Valid) (h : Credited range s e) :
    (s.deref (.t2 (s.idx2 e.ip))).u < ((step range s e).deref (.t2 (s.idx2 e.ip))).u := by
  have hp : s.provider e.ip = some (.t2 (s.idx2 e.ip)) :=
    provider_eq_some_iff.mpr (Or.inl ⟨rfl, h.hit2⟩)
  have hright : s.prediction e.ip = e.isTaken := by
    rw [prediction_of_useless hp h.u, h.alternate]
  rw [UInt8.lt_iff_toNat_lt, deref_step h.contains, TageEntry.toNat_u_halve,
    deref_trained_of_provider hp, TageEntry.toNat_updateEntry (hs.deref _), if_pos hright,
    if_neg (by simpa using h.unhalved), u_eq_iff.mp h.u]
  omega

/-- An event keeps to the rule exactly if it credits no entry for its alternate. -/
theorem earned_iff (hs : s.Valid) : Earned range s e ↔ ¬ Credited range s e := by
  constructor
  · intro h hcredited
    exact hcredited.wrong (h.raised _ (hcredited.raised hs)).2
  · intro hnot
    have hraised : ∀ p, (s.deref p).u < ((step range s e).deref p).u →
        s.provider e.ip = some p ∧ (s.deref p).taken = e.isTaken := by
      intro p h
      by_cases he : range.Contains e.ip
      · obtain ⟨hp, hright, hdue⟩ := provider_of_raised hs he h
        exact ⟨hp, taken_of_right he hnot hp hright hdue⟩
      · rw [step_of_not_contains he] at h
        exact absurd h (Nat.lt_irrefl _)
    refine ⟨hraised, ?_, ?_, ?_⟩
    · intro hdue p h
      exact wrong_of_lowered hs (lowered_trained_of_unhalved hdue h)
    · intro _ p h
      exact wrong_of_lowered hs h
    · intro p hzero hpos
      apply (hraised p _).2
      rw [UInt8.lt_iff_toNat_lt, u_eq_iff.mp hzero]
      exact Nat.pos_of_ne_zero (u_eq_iff.not.mp hpos)

/-- **When usefulness is earned.**  In a run it is raised and lowered for an
entry's own predictions exactly if no event of the run finds a useless entry of
`T2` wrong under an alternate that is right. -/
theorem usefulness_earned_iff (range : Range) (es : List Event) :
    (∀ past e, past ++ [e] <+: es → Earned range (run range past {}) e) ↔
      ∀ past e, past ++ [e] <+: es → ¬ Credited range (run range past {}) e := by
  simp only [earned_iff (valid_run range _)]

/-- A branch leaves an entry that predicts taken in both tables; when another
branch has brought the history back, not taken turns the one in `T2`. -/
def creditingStream : List Event :=
  [⟨0x401136, 0, false⟩, ⟨0x401136, 0, true⟩] ++ List.replicate 16 ⟨0x401140, 0, false⟩ ++
    [⟨0x401136, 0, false⟩]

/-- The next taken outcome raises the usefulness of the entry turned. -/
theorem usefulness_not_earned : ¬ ∀ (range : Range) (es : List Event),
    ∀ past e, past ++ [e] <+: es → Earned range (run range past {}) e := by
  intro h
  have hcredited : Credited ⟨0x400000, 0x4fffff⟩ (run ⟨0x400000, 0x4fffff⟩ creditingStream {})
      ⟨0x401136, 0, true⟩ := by decide +kernel
  exact (earned_iff (valid_run _ _)).mp
    (h _ (creditingStream ++ [⟨0x401136, 0, true⟩]) _ _ (List.prefix_refl _)) hcredited

end BranchPrediction.MyTage
