import BranchPrediction.MyTage.Writes

/-!
# Where the hits come from

The entries of the tagged tables carry no valid bit.  One that was never
allocated holds the tag zero, and the tag zero is one that addresses and
histories have like any other; so what looks it up under that tag hits, and is
predicted from a counter nobody set.

Nothing but an allocation ever writes a tag, so this is the only way: the tag of
an entry is the one its last allocation gave it, or zero if it has had none
(`provenance`).  A run in which no lookup finds an entry without an allocation
under the tag zero has only genuine hits (`hits_genuine_iff`).
-/

namespace BranchPrediction.MyTage

/-- The event allocates the entry. -/
def Allocates (range : Range) (s : State) (e : Event) (p : Pointer) : Prop :=
  range.Contains e.ip ∧ s.allocated e.ip e.isTaken = some p

/-- No event of the run has allocated the entry. -/
def NeverAllocated (range : Range) (es : List Event) (p : Pointer) : Prop :=
  ∀ past e, past ++ [e] <+: es → ¬ Allocates range (run range past {}) e p

/-- A mispredicted event of the run allocated the entry with this tag, and no
later event has allocated it again. -/
def LastAllocated (range : Range) (es : List Event) (p : Pointer) (tag : UInt16) : Prop :=
  ∃ past e, past ++ [e] <+: es ∧
    (Allocates range (run range past {}) e p ∧
      (run range past {}).prediction e.ip ≠ e.isTaken ∧
      (run range past {}).tagOf e.ip p = tag) ∧
    ∀ past' e', past ++ [e] <+: past' → past' ++ [e'] <+: es →
      ¬ Allocates range (run range past' {}) e' p

variable {range : Range} {es past : List Event} {e : Event} {ip : ADDRINT} {p : Pointer}
  {tag : UInt16}

theorem neverAllocated_concat : NeverAllocated range (es ++ [e]) p ↔
    NeverAllocated range es p ∧ ¬ Allocates range (run range es {}) e p :=
  forall_prefix_concat_iff

theorem LastAllocated.not_never (h : LastAllocated range es p tag) :
    ¬ NeverAllocated range es p := by
  obtain ⟨past, e, hbefore, ⟨halloc, -⟩, -⟩ := h
  intro hnever
  exact hnever past e hbefore halloc

theorem lastAllocated_concat (h : Allocates range (run range es {}) e p) :
    LastAllocated range (es ++ [e]) p ((run range es {}).tagOf e.ip p) := by
  refine ⟨es, e, List.prefix_refl _, ⟨h, (allocated_spec h.2).1, rfl⟩, ?_⟩
  intro past' e' hlater hwithin
  have hlater := hlater.length_le
  have hwithin := hwithin.length_le
  simp only [List.length_append, List.length_singleton] at hlater hwithin
  omega

theorem LastAllocated.concat (h : LastAllocated range es p tag)
    (he : ¬ Allocates range (run range es {}) e p) :
    LastAllocated range (es ++ [e]) p tag := by
  obtain ⟨past, e', hbefore, halloc, hlast⟩ := h
  refine ⟨past, e', hbefore.trans (List.prefix_append _ _), halloc, ?_⟩
  intro past' e'' hlater hwithin
  rcases concat_prefix_concat_iff.mp hwithin with ⟨rfl, rfl⟩ | hwithin
  · exact he
  · exact hlast past' e'' hlater hwithin

/-! ## The tags -/

theorem tag_step_of_allocates {s : State} (h : Allocates range s e p) :
    ((step range s e).deref p).tag = s.tagOf e.ip p := by
  rw [deref_step h.1, TageEntry.tag_halve, tag_trained, if_pos h.2]

/-- Only an allocation writes the tag of an entry. -/
theorem tag_step_of_not_allocates {s : State} (h : ¬ Allocates range s e p) :
    ((step range s e).deref p).tag = (s.deref p).tag := by
  by_cases he : range.Contains e.ip
  · rw [deref_step he, TageEntry.tag_halve, tag_trained, if_neg fun ha => h ⟨he, ha⟩]
  · rw [step_of_not_contains he]

/-- A tag stays as long as the entry is not allocated. -/
theorem tag_run_of_not_allocates {es' : List Event} (hbefore : es <+: es')
    (hkept : ∀ past e, es <+: past → past ++ [e] <+: es' →
      ¬ Allocates range (run range past {}) e p) :
    ((run range es' {}).deref p).tag = ((run range es {}).deref p).tag := by
  obtain ⟨later, rfl⟩ := hbefore
  induction later using List.reverseRecOn with
  | nil => rw [List.append_nil]
  | append_singleton later e ih =>
      rw [← List.append_assoc] at hkept ⊢
      rw [run_concat, tag_step_of_not_allocates
        (hkept _ e (List.prefix_append _ _) (List.prefix_refl _))]
      exact ih fun past e' hlater hwithin =>
        hkept past e' hlater (hwithin.trans (List.prefix_append _ _))

theorem deref_initial (p : Pointer) : (({} : State).deref p) = {} := by
  cases p <;> simp [Tables.deref]

/-- **The tag of an entry** is zero if it was never allocated, and otherwise the
one its last allocation gave it. -/
theorem provenance (range : Range) (es : List Event) (p : Pointer) :
    NeverAllocated range es p ∧ ((run range es {}).deref p).tag = 0 ∨
      LastAllocated range es p ((run range es {}).deref p).tag := by
  induction es using List.reverseRecOn with
  | nil =>
      refine Or.inl ⟨fun _ _ hbefore => absurd hbefore not_concat_prefix_nil, ?_⟩
      exact congrArg TageEntry.tag (deref_initial p)
  | append_singleton es e ih =>
      rw [run_concat]
      by_cases h : Allocates range (run range es {}) e p
      · rw [tag_step_of_allocates h]
        exact Or.inr (lastAllocated_concat h)
      · rw [tag_step_of_not_allocates h]
        rcases ih with ⟨hnever, htag⟩ | hlast
        · exact Or.inl ⟨neverAllocated_concat.mpr ⟨hnever, h⟩, htag⟩
        · exact Or.inr (hlast.concat h)

theorem tag_of_never (h : NeverAllocated range es p) : ((run range es {}).deref p).tag = 0 := by
  rcases provenance range es p with ⟨-, htag⟩ | hlast
  · exact htag
  · exact absurd h hlast.not_never

theorem lastAllocated_of_not_never (h : ¬ NeverAllocated range es p) :
    LastAllocated range es p ((run range es {}).deref p).tag := by
  rcases provenance range es p with ⟨hnever, -⟩ | hlast
  · exact absurd hnever h
  · exact hlast

/-! ## Genuine hits -/

/-- The next event of a branch looks an entry up under the tag zero that was
never allocated. -/
def FreshUnderZero (range : Range) (past : List Event) (ip : ADDRINT) : Prop :=
  ∃ p, (run range past {}).LooksUp ip p ∧ NeverAllocated range past p ∧
    (run range past {}).tagOf ip p = 0

/-- The entry that `altPred` is read from, if it is not read from the base counter. -/
def State.alternate (s : State) (ip : ADDRINT) : Option Pointer :=
  if s.hit1 ip then some (.t1 (s.idx1 ip)) else none

/-- What an event hits was allocated under the tag it is looked up with, and an
entry never allocated has no part in the event but to be allocated. -/
structure Genuine (range : Range) (past : List Event) (e : Event) : Prop where
  hit1 : (run range past {}).hit1 e.ip → LastAllocated range past
    (.t1 ((run range past {}).idx1 e.ip)) ((run range past {}).tag1 e.ip)
  hit2 : (run range past {}).hit2 e.ip → LastAllocated range past
    (.t2 ((run range past {}).idx2 e.ip)) ((run range past {}).tag2 e.ip)
  provider : ∀ p, (run range past {}).provider e.ip = some p → ¬ NeverAllocated range past p
  alternate : ∀ p, (run range past {}).alternate e.ip = some p → ¬ NeverAllocated range past p
  room2 : (run range past {}).prediction e.ip ≠ e.isTaken →
    NeverAllocated range past (.t2 ((run range past {}).idx2 e.ip)) →
    Allocates range (run range past {}) e (.t2 ((run range past {}).idx2 e.ip))
  room1 : (run range past {}).prediction e.ip ≠ e.isTaken →
    NeverAllocated range past (.t1 ((run range past {}).idx1 e.ip)) →
    ¬ Allocates range (run range past {}) e (.t2 ((run range past {}).idx2 e.ip)) →
    Allocates range (run range past {}) e (.t1 ((run range past {}).idx1 e.ip))

theorem TageEntry.halve_initial (due : Bool) : ({} : TageEntry).halve due = {} := by
  cases due <;> rfl

/-- A run whose lookups never find a fresh entry under the tag zero leaves an
entry it does not allocate as it was. -/
theorem deref_of_never
    (hrun : ∀ past e, past ++ [e] <+: es → range.Contains e.ip →
      ¬ FreshUnderZero range past e.ip)
    (h : NeverAllocated range es p) : (run range es {}).deref p = {} := by
  induction es using List.reverseRecOn with
  | nil => exact deref_initial p
  | append_singleton es e ih =>
      obtain ⟨hes, he⟩ := neverAllocated_concat.mp h
      have hbefore := ih (fun past e' hpast => hrun past e'
        (hpast.trans (List.prefix_append _ _))) hes
      rw [run_concat]
      by_cases hin : range.Contains e.ip
      · have hnot : (run range es {}).provider e.ip ≠ some p := by
          intro hp
          have htag := provider_hits hp
          rw [hbefore] at htag
          exact hrun es e (List.prefix_refl _) hin ⟨p, provider_looksUp hp, hes, htag.symm⟩
        rw [deref_step hin, deref_trained_of_neither (fun ha => he ⟨hin, ha⟩) hnot, hbefore]
        exact TageEntry.halve_initial _
      · rw [step_of_not_contains hin, hbefore]

section

variable (hnow : ¬ FreshUnderZero range past ip)
include hnow

/-- What hits was allocated, unless it is fresh under the tag zero. -/
theorem not_never_of_hit (hlooks : (run range past {}).LooksUp ip p)
    (htag : ((run range past {}).deref p).tag = (run range past {}).tagOf ip p) :
    ¬ NeverAllocated range past p := by
  intro hnever
  rw [tag_of_never hnever] at htag
  exact hnow ⟨p, hlooks, hnever, htag.symm⟩

theorem lastAllocated_of_hit (hlooks : (run range past {}).LooksUp ip p)
    (htag : ((run range past {}).deref p).tag = (run range past {}).tagOf ip p) :
    LastAllocated range past p ((run range past {}).tagOf ip p) := by
  rw [← htag]
  exact lastAllocated_of_not_never (not_never_of_hit hnow hlooks htag)

theorem miss1_of_never (hnever : NeverAllocated range past (.t1 ((run range past {}).idx1 ip))) :
    (run range past {}).hit1 ip = false := by
  by_contra h1
  rw [Bool.not_eq_false] at h1
  exact not_never_of_hit hnow (Or.inl rfl) (hit1_iff.mp h1) hnever

theorem miss2_of_never (hnever : NeverAllocated range past (.t2 ((run range past {}).idx2 ip))) :
    (run range past {}).hit2 ip = false := by
  by_contra h2
  rw [Bool.not_eq_false] at h2
  exact not_never_of_hit hnow (Or.inr rfl) (hit2_iff.mp h2) hnever

end

theorem genuine_of_not_fresh (hin : range.Contains e.ip)
    (hrun : ∀ past' e', past' ++ [e'] <+: past → range.Contains e'.ip →
      ¬ FreshUnderZero range past' e'.ip)
    (hnow : ¬ FreshUnderZero range past e.ip) : Genuine range past e := by
  have hu : ∀ p, NeverAllocated range past p → ((run range past {}).deref p).u = 0 := by
    intro p hnever
    rw [deref_of_never hrun hnever]
  exact
    { hit1 := fun h1 => lastAllocated_of_hit hnow (Or.inl rfl) (hit1_iff.mp h1)
      hit2 := fun h2 => lastAllocated_of_hit hnow (Or.inr rfl) (hit2_iff.mp h2)
      provider := fun p hp => not_never_of_hit hnow (provider_looksUp hp) (provider_hits hp)
      alternate := by
        intro p hp
        unfold State.alternate at hp
        split at hp
        · next h1 =>
            obtain rfl := Option.some.inj hp
            exact not_never_of_hit hnow (Or.inl rfl) (hit1_iff.mp h1)
        · cases hp
      room2 := by
        intro hwrong hnever
        refine ⟨hin, ?_⟩
        rw [allocated_eq, if_pos hwrong, if_pos ⟨miss2_of_never hnow hnever, hu _ hnever⟩]
      room1 := by
        intro hwrong hnever hnot2
        have hfull : ¬ ((run range past {}).hit2 e.ip = false ∧
            ((run range past {}).deref (.t2 ((run range past {}).idx2 e.ip))).u = 0) := by
          intro hroom
          apply hnot2
          refine ⟨hin, ?_⟩
          rw [allocated_eq, if_pos hwrong, if_pos hroom]
        refine ⟨hin, ?_⟩
        rw [allocated_eq, if_pos hwrong, if_neg hfull,
          if_pos ⟨miss1_of_never hnow hnever, hu _ hnever⟩] }

/-- **When there are no phantom hits.**  Every event of a run hits only what was
allocated for it exactly if no event of the run looks up an entry under the tag
zero that was never allocated. -/
theorem hits_genuine_iff (range : Range) (es : List Event) :
    (∀ past e, past ++ [e] <+: es → range.Contains e.ip → Genuine range past e) ↔
      ∀ past e, past ++ [e] <+: es → range.Contains e.ip → ¬ FreshUnderZero range past e.ip := by
  constructor
  · rintro hgenuine past e hbefore hin ⟨p, hlooks, hnever, hzero⟩
    have hhit : ((run range past {}).deref p).tag = (run range past {}).tagOf e.ip p :=
      (tag_of_never hnever).trans hzero.symm
    rcases hlooks with rfl | rfl
    · exact ((hgenuine past e hbefore hin).hit1 (hit1_iff.mpr hhit)).not_never hnever
    · exact ((hgenuine past e hbefore hin).hit2 (hit2_iff.mpr hhit)).not_never hnever
  · intro hrun past e hbefore hin
    apply genuine_of_not_fresh hin _ (hrun past e hbefore hin)
    intro past' e' hearlier
    exact hrun past' e' (hearlier.trans ((List.prefix_append past [e]).trans hbefore))

/-- The first event of a run hits both tables if its address ends in zeros. -/
theorem first_event_hits : ¬ ∀ (range : Range) (es : List Event),
    ∀ past e, past ++ [e] <+: es → range.Contains e.ip → Genuine range past e := by
  intro h
  let e : Event := ⟨0x410000, 0x410010, true⟩
  have hgenuine := h ⟨0x400000, 0x4fffff⟩ [e] [] e (List.prefix_refl _) (by decide)
  obtain ⟨past, e', hbefore, -⟩ := hgenuine.hit1 (by decide +kernel)
  exact not_concat_prefix_nil hbefore

end BranchPrediction.MyTage
