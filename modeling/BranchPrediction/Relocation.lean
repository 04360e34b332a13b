import BranchPrediction.MyTage.Context
import Mathlib.Data.Fintype.EquivFin

/-!
# Programs loaded elsewhere

A relocation renames the addresses of a program.  `MyBranch` keeps nothing but
maps keyed by addresses, so its runs follow any renaming that keeps branches
apart and respects the range.  `MyTage` hashes addresses as well, but only their
low sixteen bits, so its runs follow a renaming that keeps those.

Both are simulations: the relation between the states of the original and of the
relocated program is preserved by one event of the one and the renamed event of
the other.
-/

namespace BranchPrediction

open Cpp Automata

/-- A renaming of addresses under which a program's branches stay apart and in
range.  Targets are addresses that are only recorded, and may be renamed
in any way. -/
structure Relocation (range range' : Range) where
  ip : ADDRINT → ADDRINT
  target : ADDRINT → ADDRINT
  ip_injective : Function.Injective ip
  contains_ip : ∀ a, range'.Contains (ip a) ↔ range.Contains a

namespace Relocation

variable {range range' : Range} (r : Relocation range range')

/-- An event of the relocated program. -/
def event (e : Event) : Event :=
  ⟨r.ip e.ip, r.target e.target, e.isTaken⟩

/-- A trace record of the relocated program: the old outcome and a new target. -/
def trace (bt : BranchTrace) : BranchTrace :=
  { bt with target := r.target bt.target }

/-- The map `m'` is `m` with its keys renamed and its values changed by `φ`. -/
def Renames {ν : Type} (φ : ν → ν) (m m' : Map ADDRINT ν) : Prop :=
  (∀ a : ADDRINT, m'[r.ip a]? = (m[a]?).map φ) ∧ ∀ a' ∈ m', ∃ a ∈ m, r.ip a = a'

/-- There are as many new addresses as old ones. -/
theorem ip_surjective : Function.Surjective r.ip := by
  have : Finite ADDRINT :=
    Finite.of_injective (fun a : ADDRINT => (⟨a.toNat, a.toNat_lt⟩ : Fin (2 ^ 64))) fun a a' h =>
      UInt64.toNat_inj.mp (congrArg Fin.val h)
  exact Finite.surjective_of_injective r.ip_injective

theorem renames_of_getElem? {ν : Type} {φ : ν → ν} {m m' : Map ADDRINT ν}
    (h : ∀ a : ADDRINT, m'[r.ip a]? = (m[a]?).map φ) : r.Renames φ m m' := by
  refine ⟨h, ?_⟩
  intro a' ha'
  obtain ⟨a, rfl⟩ := r.ip_surjective a'
  refine ⟨a, ?_, rfl⟩
  rw [Std.ExtTreeMap.mem_iff_isSome_getElem?] at ha' ⊢
  rwa [h, Option.isSome_map] at ha'

/-- A trace and one more record, in the relocated program. -/
theorem map_trace_append (past : Option (List BranchTrace)) (e : Event) :
    some ((past.map (List.map r.trace)).getD [] ++ [(r.event e).trace]) =
      (some (past.getD [] ++ [e.trace])).map (List.map r.trace) := by
  cases past with
  | none => rfl
  | some traces => simp [List.map_append]; rfl

end Relocation

variable {range range' : Range}

/-! ## `MyBranch` -/

namespace MyBranch

/-- The entries of a branch in the relocated program. -/
def Slice.relocate (r : Relocation range range') (c : Slice) : Slice :=
  { c with history := c.history.map (List.map r.trace) }

theorem Slice.record_relocate (r : Relocation range range') (c : Slice) (e : Event) :
    (c.relocate r).record (r.event e) = (c.record e).relocate r := by
  ext1
  · rfl
  · rfl
  · rfl
  · exact r.map_trace_append c.history e
  · rfl

/-- The states of the original and of the relocated program. -/
structure Relocated (r : Relocation range range') (s s' : State) : Prop where
  total : s'.total = s.total
  taken : s'.taken = s.taken
  nottaken : s'.nottaken = s.nottaken
  predictions : s'.predictions = s.predictions
  correct : s'.correct = s.correct
  pred2 : s'.pred2 = s.pred2
  correct2 : s'.correct2 = s.correct2
  predH : s'.predH = s.predH
  correctH : s'.correctH = s.correctH
  slice : ∀ ip, slice s' (r.ip ip) = (slice s ip).relocate r

theorem Relocated.step {r : Relocation range range'} {s s' : State} (h : Relocated r s s')
    (e : Event) : Relocated r (step range s e) (step range' s' (r.event e)) := by
  by_cases he : range.Contains e.ip
  · have he' : range'.Contains (r.event e).ip := (r.contains_ip e.ip).mpr he
    obtain ⟨htotal, hpred, hpred2, hpredH, htaken, hnottaken⟩ := counters_step he s
    obtain ⟨htotal', hpred', hpred2', hpredH', htaken', hnottaken'⟩ := counters_step he' s'
    have hslice : MyBranch.slice s' (r.event e).ip = (MyBranch.slice s e.ip).relocate r :=
      h.slice e.ip
    exact
      { total := by rw [htotal, htotal', h.total]
        taken := by rw [htaken, htaken', h.taken]; rfl
        nottaken := by rw [hnottaken, hnottaken', h.nottaken]; rfl
        predictions := by rw [hpred, hpred', h.predictions]
        correct := by rw [correct_step he, correct_step he', h.correct, hslice]; rfl
        pred2 := by rw [hpred2, hpred2', h.pred2]
        correct2 := by rw [correct2_step he, correct2_step he', h.correct2, hslice]; rfl
        predH := by rw [hpredH, hpredH', h.predH]
        correctH := by rw [correctH_step he, correctH_step he', h.correctH, hslice]; rfl
        slice := by
          intro ip
          have hip : (r.event e).ip = r.ip ip ↔ e.ip = ip := r.ip_injective.eq_iff
          rw [slice_step_of_contains he, slice_step_of_contains he']
          simp only [hip, h.slice]
          split
          · exact Slice.record_relocate r _ e
          · rfl }
  · have he' : ¬ range'.Contains (r.event e).ip := fun hc => he ((r.contains_ip e.ip).mp hc)
    rw [step_of_not_contains he, step_of_not_contains he']
    exact h

theorem Relocated.initial (r : Relocation range range') : Relocated r {} {} :=
  ⟨rfl, rfl, rfl, rfl, rfl, rfl, rfl, rfl, rfl, fun ip => by simp [MyBranch.slice, Slice.relocate]⟩

theorem relocated_run (r : Relocation range range') (es : List Event) :
    Relocated r (run range es {}) (run range' (es.map r.event) {}) :=
  foldl_simulation (R := Relocated r) r.event (fun _ _ e h => h.step e) (Relocated.initial r) es

end MyBranch

/-! ## `MyTage` -/

namespace MyTage

/-- Two addresses that the hash functions cannot tell apart. -/
def SameLowBits (ip ip' : ADDRINT) : Prop :=
  ip'.toNat % 2 ^ 16 = ip.toNat % 2 ^ 16

theorem addressIndex_congr {ip ip' : ADDRINT} (h : SameLowBits ip ip') :
    addressIndex ip' = addressIndex ip := by
  have hbit : ∀ i < 16, ip'.toNat.testBit i = ip.toNat.testBit i := by
    intro i hi
    have := congrArg (fun v => v.testBit i) h
    simpa only [Nat.testBit_mod_two_pow, hi, decide_true, Bool.true_and] using this
  apply Nat.eq_of_testBit_eq
  intro i
  simp only [addressIndex, Nat.testBit_mod_two_pow, Nat.testBit_xor, Nat.testBit_shiftRight]
  by_cases hi : i < 9
  · rw [hbit i (by omega), hbit (2 + i) (by omega)]
  · simp [hi]

theorem addressTag_congr {ip ip' : ADDRINT} (h : SameLowBits ip ip') :
    addressTag ip' = addressTag ip := h

/-- The entries of a branch in the relocated program. -/
def Slice.relocate (r : Relocation range range') (c : Slice) : Slice :=
  { c with history := c.history.map (List.map r.trace) }

theorem Slice.record_relocate (r : Relocation range range') (c : Slice) (right : Bool)
    (e : Event) : (c.relocate r).record right (r.event e) = (c.record right e).relocate r := by
  ext1
  · rfl
  · exact r.map_trace_append c.history e
  · rfl

/-- The states of the original and of the relocated program. -/
structure Relocated (r : Relocation range range') (s s' : State) : Prop where
  ghr : s'.ghr = s.ghr
  tables : s'.toTables = s.toTables
  tagePred : s'.tagePred = s.tagePred
  tageCorrect : s'.tageCorrect = s.tageCorrect
  clock : s'.clock = s.clock
  slice : ∀ ip, slice s' (r.ip ip) = (slice s ip).relocate r

namespace Relocated

variable {r : Relocation range range'} {s s' : State} (h : Relocated r s s') {ip : ADDRINT}
include h

theorem idx1_eq (hip : SameLowBits ip (r.ip ip)) : s'.idx1 (r.ip ip) = s.idx1 ip := by
  rw [Fin.ext_iff, val_idx1, val_idx1, h.ghr, addressIndex_congr hip]

theorem idx2_eq (hip : SameLowBits ip (r.ip ip)) : s'.idx2 (r.ip ip) = s.idx2 ip := by
  rw [Fin.ext_iff, val_idx2, val_idx2, h.ghr, addressIndex_congr hip]

/-- Both programs read the same. -/
theorem lookup_eq (hip : SameLowBits ip (r.ip ip)) : s'.lookup (r.ip ip) = s.lookup ip := by
  have htag1 : s'.tag1 (r.ip ip) = s.tag1 ip := by
    rw [← UInt16.toNat_inj, toNat_tag1, toNat_tag1, h.ghr, addressTag_congr hip]
  have htag2 : s'.tag2 (r.ip ip) = s.tag2 ip := by
    rw [← UInt16.toNat_inj, toNat_tag2, toNat_tag2, h.ghr, addressTag_congr hip]
  have ht0 : s'.t0[r.ip ip]? = s.t0[ip]? := congrArg Slice.t0 (h.slice ip)
  simp only [State.lookup, htag1, htag2, h.tables, ht0, h.idx1_eq hip, h.idx2_eq hip]

theorem step (e : Event) (hip : SameLowBits e.ip (r.ip e.ip)) :
    Relocated r (step range s e) (step range' s' (r.event e)) := by
  by_cases he : range.Contains e.ip
  · have he' : range'.Contains (r.event e).ip := (r.contains_ip e.ip).mpr he
    have hlookup : s'.lookup (r.event e).ip = s.lookup e.ip := h.lookup_eq hip
    have hidx1 : s'.idx1 (r.event e).ip = s.idx1 e.ip := h.idx1_eq hip
    have hidx2 : s'.idx2 (r.event e).ip = s.idx2 e.ip := h.idx2_eq hip
    obtain ⟨-, hpred, hclock, -, -⟩ := counters_step he s
    obtain ⟨-, hpred', hclock', -, -⟩ := counters_step he' s'
    exact
      { ghr := by
          rw [← UInt64.toNat_inj, toNat_ghr_step he, toNat_ghr_step he', h.ghr]
          rfl
        tables := by
          rw [tables_step he, tables_step he']
          simp only [hlookup, hidx1, hidx2, h.tables, h.clock]
          rfl
        tagePred := by rw [hpred, hpred', h.tagePred]
        tageCorrect := by
          rw [tageCorrect_step he, tageCorrect_step he', h.tageCorrect, hlookup]
          rfl
        clock := by rw [hclock, hclock', h.clock]
        slice := by
          intro ip
          have hkey : (r.event e).ip = r.ip ip ↔ e.ip = ip := r.ip_injective.eq_iff
          rw [slice_step_of_contains he, slice_step_of_contains he', hlookup]
          simp only [hkey, h.slice]
          split
          · exact Slice.record_relocate r _ _ e
          · rfl }
  · have he' : ¬ range'.Contains (r.event e).ip := fun hc => he ((r.contains_ip e.ip).mp hc)
    rw [step_of_not_contains he, step_of_not_contains he']
    exact h

theorem run (es : List Event) (hes : ∀ e ∈ es, SameLowBits e.ip (r.ip e.ip)) :
    Relocated r (run range es s) (run range' (es.map r.event) s') := by
  induction es generalizing s s' with
  | nil => exact h
  | cons e es ih =>
      exact ih (h.step e (hes e (List.mem_cons_self ..))) fun e' he' =>
        hes e' (List.mem_cons_of_mem e he')

omit h

theorem initial (r : Relocation range range') : Relocated r {} {} := by
  refine ⟨rfl, rfl, rfl, rfl, rfl, ?_⟩
  intro ip
  simp [MyTage.slice, Slice.relocate]

end Relocated

end MyTage

/-- **Results do not depend on where the program is loaded.**  For `MyBranch`
nothing about the addresses matters but which are equal; for `MyTage` their low
sixteen bits do. -/
theorem results_relocated (r : Relocation range range') (es : List Event) :
    (let s := MyBranch.run range es {}
      let s' := MyBranch.run range' (es.map r.event) {}
      s'.total = s.total ∧ s'.taken = s.taken ∧ s'.nottaken = s.nottaken ∧
        s'.predictions = s.predictions ∧ s'.correct = s.correct ∧
        s'.pred2 = s.pred2 ∧ s'.correct2 = s.correct2 ∧
        s'.predH = s.predH ∧ s'.correctH = s.correctH ∧
        r.Renames id s.mispredBranch s'.mispredBranch ∧
        r.Renames (List.map r.trace) s.history s'.history) ∧
      ((∀ e ∈ es, (r.ip e.ip).toNat % 2 ^ 16 = e.ip.toNat % 2 ^ 16) →
        ∀ past, past <+: es →
          let s := MyTage.run range past {}
          let s' := MyTage.run range' (past.map r.event) {}
          s'.ghr = s.ghr ∧ s'.t1 = s.t1 ∧ s'.t2 = s.t2 ∧
            s'.tagePred = s.tagePred ∧ s'.tageCorrect = s.tageCorrect ∧ s'.clock = s.clock ∧
            r.Renames id s.t0 s'.t0 ∧ r.Renames id s.mispredPerBranch s'.mispredPerBranch) := by
  constructor
  · intro s s'
    have h := MyBranch.relocated_run r es
    refine ⟨h.total, h.taken, h.nottaken, h.predictions, h.correct, h.pred2, h.correct2, h.predH,
      h.correctH, r.renames_of_getElem? ?_, r.renames_of_getElem? ?_⟩
    · intro a
      rw [Option.map_id]
      exact congrArg MyBranch.Slice.mispred (h.slice a)
    · intro a
      exact congrArg MyBranch.Slice.history (h.slice a)
  · intro hlow past hpast s s'
    have h := (MyTage.Relocated.initial r).run past fun e he => hlow e (hpast.subset he)
    refine ⟨h.ghr, congrArg _ h.tables, congrArg _ h.tables, h.tagePred, h.tageCorrect, h.clock,
      r.renames_of_getElem? ?_, r.renames_of_getElem? ?_⟩
    · intro a
      rw [Option.map_id]
      exact congrArg MyTage.Slice.t0 (h.slice a)
    · intro a
      rw [Option.map_id]
      exact congrArg MyTage.Slice.mispred (h.slice a)

theorem contains_add (a : ADDRINT) :
    Range.Contains ⟨0x11000, 0x11fff⟩ (a + 0x10000) ↔ Range.Contains ⟨0x1000, 0x1fff⟩ a := by
  have := a.toNat_lt
  simp only [Range.Contains, UInt64.le_iff_toNat_le, UInt64.toNat_add]
  simp only [UInt64.reduceToNat]
  omega

/-- A page of code moved by 64 KiB. -/
def movedPage : Relocation ⟨0x1000, 0x1fff⟩ ⟨0x11000, 0x11fff⟩ where
  ip a := a + 0x10000
  target a := a + 0x10000
  ip_injective _ _ h := UInt64.add_left_inj 0x10000 |>.mp h
  contains_ip := contains_add

theorem results_relocated_movedPage :
    (MyTage.run ⟨0x11000, 0x11fff⟩
        ([⟨0x1004, 0x1000, true⟩, ⟨0x1010, 0x1000, false⟩].map movedPage.event) {}).ghr =
      (MyTage.run ⟨0x1000, 0x1fff⟩
        [⟨0x1004, 0x1000, true⟩, ⟨0x1010, 0x1000, false⟩] {}).ghr :=
  ((results_relocated movedPage [⟨0x1004, 0x1000, true⟩, ⟨0x1010, 0x1000, false⟩]).2 (by decide) _
    (List.prefix_refl _)).1

end BranchPrediction
