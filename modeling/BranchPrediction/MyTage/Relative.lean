import BranchPrediction.MyTage.Constant

/-!
# The tables as one branch sees them

If one branch runs alone, its address takes part in every index and every tag
in the same way: by an exclusive or with a constant.  Seen relative to these
constants the tables no longer depend on the address, but for one thing: an
entry that was never allocated holds the tag zero, which is the address part of
the branch's tag under another name.  `Relative` is that view of the tables; its
step has the address as a parameter for the hits of entries never allocated, and
nowhere else.

These tables are meant to be run by the kernel, so they are association lists
and their tests are Booleans.

The base counter is left out.  `Relative` follows the tool as long as the base
counter predicts taken (`Seen.step`), which is all that is needed for loops.
-/

namespace BranchPrediction.MyTage

open Automata

/-- An entry, its tag relative to the branch. -/
structure Cell where
  tag : ℕ
  gauge : Gauge

/-- The tag of an entry that was never allocated. -/
def blank : ℕ := 2 ^ 16

namespace Cell

/-- The cell hits under a tag.  A blank one does if the tag is the address part
`p`, since then the absolute tag is zero. -/
def hits (p : ℕ) (c : Cell) (tag : ℕ) : Bool :=
  bif Nat.beq c.tag blank then Nat.beq p tag else Nat.beq c.tag tag

/-- A cell hits under one tag only. -/
theorem hits_unique {p : ℕ} {c : Cell} {t t' : ℕ} (h : c.hits p t) (h' : c.hits p t') :
    t = t' := by
  unfold hits at h h'
  cases hb : Nat.beq c.tag blank <;> simp only [hb, cond_true, cond_false, Nat.beq_eq] at h h'
  · exact h.symm.trans h'
  · exact h.symm.trans h'

/-- The cell, halved if the halving is due. -/
def halve (c : Cell) (due : Bool) : Cell :=
  { c with gauge := c.gauge.halve due }

end Cell

/-- The cells that are not initial, by index. -/
abbrev Cells := List (ℕ × Cell)

namespace Cells

def get (i : ℕ) : Cells → Cell
  | [] => ⟨blank, 2, 0⟩
  | (j, c) :: t => bif Nat.beq j i then c else get i t

def set (i : ℕ) (c : Cell) : Cells → Cells
  | [] => [(i, c)]
  | (j, d) :: t => bif Nat.beq j i then (i, c) :: t else (j, d) :: set i c t

/-- All cells, halved if the halving is due. -/
def halve (t : Cells) (due : Bool) : Cells :=
  bif due then t.map fun p => (p.1, p.2.halve true) else t

theorem get_cons (j : ℕ) (p : ℕ × Cell) (t : Cells) :
    get j (p :: t) = if p.1 = j then p.2 else get j t := by
  rw [get, Bool.cond_eq_ite]
  simp only [Nat.beq_eq]

theorem set_cons (i : ℕ) (c : Cell) (p : ℕ × Cell) (t : Cells) :
    set i c (p :: t) = if p.1 = i then (i, c) :: t else p :: set i c t := by
  rw [set, Bool.cond_eq_ite]
  simp only [Nat.beq_eq]

theorem get_set (i j : ℕ) (c : Cell) (t : Cells) :
    (t.set i c).get j = if i = j then c else t.get j := by
  induction t with
  | nil => exact get_cons j (i, c) []
  | cons p t ih =>
      rw [set_cons]
      by_cases hi : p.1 = i
      · rw [if_pos hi, get_cons, get_cons, hi]
        split <;> rfl
      · rw [if_neg hi, get_cons, get_cons, ih]
        by_cases hj : p.1 = j
        · rw [if_pos hj, if_pos hj, if_neg fun h => hi (hj.trans h.symm)]
        · rw [if_neg hj, if_neg hj]

theorem get_halve (j : ℕ) (t : Cells) (due : Bool) :
    (t.halve due).get j = (t.get j).halve due := by
  cases due with
  | false => rfl
  | true =>
      induction t with
      | nil => simp [halve, get, Cell.halve, Gauge.halve]
      | cons p t ih =>
          change get j ((p.1, p.2.halve true) :: halve t true) = _
          rw [get_cons, get_cons, ih]
          split <;> rfl

end Cells

/-- What an event of the branch is to the tables: its indices and tags, relative
to the branch, and its outcome. -/
structure Context where
  index1 : ℕ
  tag1 : ℕ
  index2 : ℕ
  tag2 : ℕ
  outcome : Bool

/-- The context of an event under a history. -/
def Context.of (h : ℕ) (outcome : Bool) : Context :=
  ⟨historyIndex (h % 2 ^ 8), historyTag (h % 2 ^ 8), historyIndex h, historyTag h, outcome⟩

/-- The halving is due at this clock. -/
def due (clock : ℕ) : Bool :=
  Nat.beq (clock % 1024) 0

theorem due_eq (clock : ℕ) : due clock = (clock % 1024 = 0 : Bool) := by
  rw [Bool.eq_iff_iff, decide_eq_true_eq, due, Nat.beq_eq]

/-- The clock and the tables, relative to the branch. -/
structure Relative where
  clock : ℕ := 0
  t1 : Cells := []
  t2 : Cells := []

namespace Relative

/-- What an event reads. -/
def view (p : ℕ) (s : Relative) (x : Context) : View :=
  let c1 := s.t1.get x.index1
  let c2 := s.t2.get x.index2
  ⟨2, c1.hits p x.tag1, c2.hits p x.tag2, c1.gauge, c2.gauge⟩

/-- One event. -/
def step (p : ℕ) (s : Relative) (x : Context) : Relative :=
  let v := s.view p x
  let t1 :=
    bif v.claims1 x.outcome then s.t1.set x.index1 ⟨x.tag1, .fresh x.outcome⟩
    else bif v.hit1 && !v.hit2 then
      s.t1.set x.index1 ⟨(s.t1.get x.index1).tag, v.gauge1.update v.prediction x.outcome⟩
    else s.t1
  let t2 :=
    bif v.claims2 x.outcome then s.t2.set x.index2 ⟨x.tag2, .fresh x.outcome⟩
    else bif v.hit2 then
      s.t2.set x.index2 ⟨(s.t2.get x.index2).tag, v.gauge2.update v.prediction x.outcome⟩
    else s.t2
  let clock := s.clock + 1
  ⟨clock, t1.halve (due clock), t2.halve (due clock)⟩

variable (p : ℕ) (s : Relative) (x : Context)

/-- The `T1` cells after an event. -/
theorem get_t1_step (j : ℕ) :
    (s.step p x).t1.get j = (if x.index1 = j then
      ⟨if (s.view p x).claims1 x.outcome then x.tag1 else (s.t1.get j).tag,
        (s.view p x).next1 x.outcome⟩
      else s.t1.get j).halve (due (s.clock + 1)) := by
  have hgauge : (s.view p x).gauge1 = (s.t1.get x.index1).gauge := rfl
  unfold step
  dsimp only
  rw [Cells.get_halve]
  simp only [Bool.cond_eq_ite]
  congr 1
  by_cases hj : x.index1 = j
  · subst hj
    rw [if_pos rfl, View.next1, hgauge]
    split_ifs <;> simp only [Cells.get_set, if_true]
  · rw [if_neg hj]
    split_ifs <;> simp only [Cells.get_set, hj, if_false]

/-- The `T2` cells after an event. -/
theorem get_t2_step (j : ℕ) :
    (s.step p x).t2.get j = (if x.index2 = j then
      ⟨if (s.view p x).claims2 x.outcome then x.tag2 else (s.t2.get j).tag,
        (s.view p x).next2 x.outcome⟩
      else s.t2.get j).halve (due (s.clock + 1)) := by
  have hgauge : (s.view p x).gauge2 = (s.t2.get x.index2).gauge := rfl
  unfold step
  dsimp only
  rw [Cells.get_halve]
  simp only [Bool.cond_eq_ite]
  congr 1
  by_cases hj : x.index2 = j
  · subst hj
    rw [if_pos rfl, View.next2, hgauge]
    split_ifs <;> simp only [Cells.get_set, if_true]
  · rw [if_neg hj]
    split_ifs <;> simp only [Cells.get_set, hj, if_false]

end Relative

/-! ## The tool follows -/

/-- An entry of the tool and the cell it is seen as. -/
structure Matches (ip : ADDRINT) (entry : TageEntry) (c : Cell) : Prop where
  gauge : entry.gauge = c.gauge
  tag : entry.tag.toNat = if c.tag = blank then 0 else addressTag ip ^^^ c.tag

theorem Matches.halve {ip : ADDRINT} {entry : TageEntry} {c : Cell} (h : Matches ip entry c)
    (due : Bool) : Matches ip (entry.halve due) (c.halve due) := by
  refine ⟨?_, ?_⟩
  · rw [TageEntry.gauge_halve, h.gauge]
    cases due <;> rfl
  · rw [TageEntry.tag_halve, h.tag]
    cases due <;> rfl

/-- The entry hits exactly if the cell does. -/
theorem Matches.hits_eq {ip : ADDRINT} {entry : TageEntry} {c : Cell} (h : Matches ip entry c)
    {tag : UInt16} {t : ℕ} (htag : tag.toNat = addressTag ip ^^^ t) :
    (entry.tag = tag : Bool) = c.hits (addressTag ip) t := by
  rw [Bool.eq_iff_iff, decide_eq_true_eq, ← UInt16.toNat_inj, h.tag, htag, Cell.hits]
  by_cases hblank : c.tag = blank
  · simp only [hblank, if_true, Bool.cond_eq_ite, Nat.beq_eq]
    rw [eq_comm, Nat.xor_eq_zero_iff]
  · simp only [if_neg hblank, Bool.cond_eq_ite, Nat.beq_eq]
    exact Nat.xor_right_inj

/-- The state of the tool and what one branch sees of it. -/
structure Seen (ip : ADDRINT) (σ : State) (s : Relative) : Prop where
  clock : σ.clock = s.clock
  t1 : ∀ (i : Fin t1Size) (j : ℕ), (i : ℕ) = addressIndex ip ^^^ j →
    Matches ip (σ.deref (.t1 i)) (s.t1.get j)
  t2 : ∀ (i : Fin t2Size) (j : ℕ), (i : ℕ) = addressIndex ip ^^^ j →
    Matches ip (σ.deref (.t2 i)) (s.t2.get j)

theorem Seen.initial (ip : ADDRINT) : Seen ip {} {} where
  clock := rfl
  t1 i j _ := by
    simp only [Tables.deref, Fin.getElem_fin, Vector.getElem_replicate]
    exact ⟨rfl, rfl⟩
  t2 i j _ := by
    simp only [Tables.deref, Fin.getElem_fin, Vector.getElem_replicate]
    exact ⟨rfl, rfl⟩

theorem historyTag_lt (h : ℕ) : historyTag h < blank := Nat.mod_lt _ (by decide)

/-- An entry that an event allocates or trains still matches its cell. -/
theorem Matches.write {ip : ADDRINT} {entry entry' : TageEntry} {c : Cell} {g : Gauge}
    (h : Matches ip entry c) {tag : UInt16} {t : ℕ} (htag : tag.toNat = addressTag ip ^^^ t)
    (ht : t < blank) {claims : Bool} (hgauge : entry'.gauge = g)
    (hclaims : entry'.tag = if claims then tag else entry.tag) :
    Matches ip entry' ⟨if claims then t else c.tag, g⟩ := by
  refine ⟨hgauge, ?_⟩
  rw [hclaims]
  cases claims with
  | true => simpa [if_neg ht.ne] using htag
  | false => exact h.tag

/-! Of a base counter that predicts taken, nothing else matters. -/

section

variable {v : View} (hv : 2 ≤ v.base) (b : Bool)
include hv

theorem View.prediction_base : View.prediction { v with base := 2 } = v.prediction := by
  simp [View.prediction, View.altPred, hv]

theorem View.claims1_base : View.claims1 { v with base := 2 } b = v.claims1 b := by
  simp only [View.claims1, View.prediction_base hv]

theorem View.claims2_base : View.claims2 { v with base := 2 } b = v.claims2 b := by
  simp only [View.claims2, View.prediction_base hv]

theorem View.next1_base : View.next1 { v with base := 2 } b = v.next1 b := by
  simp only [View.next1, View.prediction_base hv, View.claims1_base hv]

theorem View.next2_base : View.next2 { v with base := 2 } b = v.next2 b := by
  simp only [View.next2, View.prediction_base hv, View.claims2_base hv]

end

section

variable {ip : ADDRINT} {σ : State} {s : Relative} (h : Seen ip σ s)
include h

/-- What an event reads is what the branch sees. -/
theorem Seen.view (hghr : σ.ghr.toNat < 2 ^ 16) (b : Bool) :
    s.view (addressTag ip) (.of σ.ghr.toNat b) = { (σ.lookup ip).view with base := 2 } := by
  have h1 := h.t1 (σ.idx1 ip) _ (val_idx1 σ ip)
  have h2 := h.t2 (σ.idx2 ip) _ (val_idx2 σ ip)
  have hmod : σ.ghr.toNat % 2 ^ 16 = σ.ghr.toNat := Nat.mod_eq_of_lt hghr
  rw [hmod] at h2
  ext1
  · rfl
  · exact (h1.hits_eq (toNat_tag1 σ ip)).symm
  · exact (h2.hits_eq (hmod ▸ toNat_tag2 σ ip)).symm
  · exact h1.gauge.symm
  · exact h2.gauge.symm

variable (hσ : σ.Valid) (hghr : σ.ghr.toNat < 2 ^ 16) (hbase : 2 ≤ (σ.t0[ip]?.getD 2).toNat)
include hσ hghr hbase

theorem Seen.prediction (b : Bool) :
    (s.view (addressTag ip) (.of σ.ghr.toNat b)).prediction = σ.prediction ip := by
  rw [h.view hghr, ← lookup_prediction, ← Lookup.view_prediction (hσ.lookup ip)]
  exact View.prediction_base hbase

/-- **The simulation of one event.** -/
theorem Seen.step {range : Range} (hip : range.Contains ip) (target : ADDRINT) (b : Bool) :
    Seen ip (MyTage.step range σ ⟨ip, target, b⟩)
      (s.step (addressTag ip) (.of σ.ghr.toNat b)) := by
  have hv := hσ.lookup ip
  have hbase' : 2 ≤ (σ.lookup ip).view.base := hbase
  have hview := h.view hghr b
  have hmod : σ.ghr.toNat % 2 ^ 16 = σ.ghr.toNat := Nat.mod_eq_of_lt hghr
  have hclock := (counters_step (e := ⟨ip, target, b⟩) hip σ).2.2.1
  refine ⟨by rw [hclock, h.clock]; rfl, ?_, ?_⟩
  · intro i j hij
    have hindex : σ.idx1 ip = i ↔ (Context.of σ.ghr.toNat b).index1 = j := by
      rw [Fin.ext_iff, val_idx1, hij]
      exact Nat.xor_right_inj
    rw [deref_t1_step hip, Relative.get_t1_step, h.clock, hview, due_eq]
    apply Matches.halve
    by_cases hj : (Context.of σ.ghr.toNat b).index1 = j
    · obtain rfl := hindex.mpr hj
      rw [if_pos rfl, if_pos hj, View.claims1_base hbase', View.next1_base hbase']
      exact (h.t1 _ j hij).write (toNat_tag1 σ ip) (historyTag_lt _) (Lookup.gauge_next1 hv b)
        (Lookup.tag_next1 hv b)
    · rw [if_neg (hindex.not.mpr hj), if_neg hj]
      exact h.t1 i j hij
  · intro i j hij
    have hindex : σ.idx2 ip = i ↔ (Context.of σ.ghr.toNat b).index2 = j := by
      rw [Fin.ext_iff, val_idx2, hmod, hij]
      exact Nat.xor_right_inj
    rw [deref_t2_step hip, Relative.get_t2_step, h.clock, hview, due_eq]
    apply Matches.halve
    by_cases hj : (Context.of σ.ghr.toNat b).index2 = j
    · obtain rfl := hindex.mpr hj
      rw [if_pos rfl, if_pos hj, View.claims2_base hbase', View.next2_base hbase']
      exact (h.t2 _ j hij).write (hmod ▸ toNat_tag2 σ ip) (historyTag_lt _)
        (Lookup.gauge_next2 hv b) (Lookup.tag_next2 hv b)
    · rw [if_neg (hindex.not.mpr hj), if_neg hj]
      exact h.t2 i j hij

end

end BranchPrediction.MyTage
