import BranchPrediction.MyTage.Context
import BranchPrediction.MyTage.Gauge
import BranchPrediction.MyTage.Statistics

/-!
# Branches that stop changing

From some state on only one branch runs, and always to one side.  After sixteen
events the history register is full of that side, and every later event looks
the same two entries up.  If both hit, if the `T2` entry has no usefulness and
if the counter of the `T1` entry predicts the other side, the branch is
`Trapped`: the `T1` entry is what is predicted from, the `T2` entry is what is
trained, and its usefulness, which moves with the prediction made, stays at
zero.  Every later event is mispredicted.

Outside the trap a misprediction always trains what it was made from.  The
potential `View.lag` counts the trainings that the counters in use still lack,
and an allocation adds none, because a new entry predicts the outcome it was
allocated for.
-/

namespace BranchPrediction.MyTage

open Automata

/-! ## The trap -/

/-- `T1` predicts the wrong side, and `T2` shadows it without being used. -/
def State.Trapped (s : State) (ip : ADDRINT) (b : Bool) : Prop :=
  s.hit1 ip ∧ s.hit2 ip ∧ (s.deref (.t2 (s.idx2 ip))).u = 0 ∧
    ((s.deref (.t1 (s.idx1 ip))).counter ≥ 0 : Bool) ≠ b

instance (s : State) (ip : ADDRINT) (b : Bool) : Decidable (s.Trapped ip b) :=
  inferInstanceAs (Decidable (_ ∧ _ ∧ _ ∧ _))

namespace View

/-- The trap, as an event sees it. -/
def Trapped (v : View) (b : Bool) : Prop :=
  v.hit1 ∧ v.hit2 ∧ v.gauge2.u = 0 ∧ v.gauge1.taken ≠ b

/-- What the next event reads if it looks up the same entries. -/
def next (v : View) (b due : Bool) : View where
  base := nextBase b v.base
  hit1 := v.hit1 || v.claims1 b
  hit2 := v.hit2 || v.claims2 b
  gauge1 := (v.next1 b).halve due
  gauge2 := (v.next2 b).halve due

variable {v : View} {b : Bool}

theorem Trapped.prediction (h : v.Trapped b) : v.prediction ≠ b := by
  obtain ⟨h1, h2, hu, hb⟩ := h
  simpa [View.prediction, altPred, h1, h2, hu] using hb

/-- The trap does not open. -/
theorem Trapped.next (h : v.Trapped b) (due : Bool) : (v.next b due).Trapped b := by
  have hp := h.prediction
  obtain ⟨h1, h2, hu, hb⟩ := h
  have hnext1 : v.next1 b = v.gauge1 := by simp [next1, claims1, h1, h2]
  have hnext2 : (v.next2 b).u = 0 := by
    simp [next2, claims2, h2, Gauge.update, hp, hu]
  refine ⟨by simp [View.next, h1], by simp [View.next, h2], ?_, ?_⟩
  · rw [View.next, Gauge.u_halve, hnext2]
    split <;> rfl
  · rwa [View.next, Gauge.taken_halve, hnext1]

end View

/-! ## The potential -/

namespace View

/-- The trainings missing in the counters that are in use. -/
def lag (v : View) (b : Bool) : ℕ :=
  Automata.lag 2 b v.base + (if v.hit1 then Automata.lag 2 b v.gauge1.counter else 0) +
    if v.hit2 then Automata.lag 2 b v.gauge2.counter else 0

variable (v : View) (b due : Bool)

theorem lag_nextBase (base : ℕ) :
    Automata.lag 2 b (nextBase b base) = Automata.lag 2 b base - 1 := by
  cases b <;>
    simp only [Automata.lag, nextBase, if_true, Bool.false_eq_true, if_false] <;> omega

theorem lag_update (g : Gauge) (p : Bool) :
    Automata.lag 2 b (g.update p b).counter = Automata.lag 2 b g.counter - 1 := by
  cases b <;>
    simp only [Automata.lag, Gauge.update, if_true, Bool.false_eq_true, if_false] <;> omega

theorem lag_fresh : Automata.lag 2 b (Gauge.fresh b).counter = 0 := by
  cases b <;> rfl

/-- What the `T1` counter lacks after an event: it is trained if nothing shadows it. -/
theorem lag_next1 :
    (if (v.next b due).hit1 then Automata.lag 2 b (v.next b due).gauge1.counter else 0) =
      if v.hit1 then Automata.lag 2 b v.gauge1.counter - (if v.hit2 then 0 else 1) else 0 := by
  have hage : (v.next b due).gauge1.counter = (v.next1 b).counter := Gauge.counter_halve _ _
  have hhit : (v.next b due).hit1 = (v.hit1 || v.claims1 b) := rfl
  rw [hage, hhit, next1]
  cases h1 : v.hit1 with
  | true =>
      have hclaims : v.claims1 b = false := by simp [claims1, h1]
      cases h2 : v.hit2 <;> simp [hclaims, lag_update]
  | false => cases hclaims : v.claims1 b <;> simp [lag_fresh]

/-- What the `T2` counter lacks after an event. -/
theorem lag_next2 :
    (if (v.next b due).hit2 then Automata.lag 2 b (v.next b due).gauge2.counter else 0) =
      if v.hit2 then Automata.lag 2 b v.gauge2.counter - 1 else 0 := by
  have hage : (v.next b due).gauge2.counter = (v.next2 b).counter := Gauge.counter_halve _ _
  have hhit : (v.next b due).hit2 = (v.hit2 || v.claims2 b) := rfl
  rw [hage, hhit, next2]
  cases h2 : v.hit2 with
  | true =>
      have hclaims : v.claims2 b = false := by simp [claims2, h2]
      simp [hclaims, lag_update]
  | false => cases hclaims : v.claims2 b <;> simp [lag_fresh]

/-- Outside the trap a misprediction is paid for by the potential. -/
theorem lag_next (h : ¬ v.Trapped b) :
    (if v.prediction = b then 0 else 1) + (v.next b due).lag b ≤ v.lag b := by
  have hbase : (v.next b due).base = nextBase b v.base := rfl
  rw [lag, lag, lag_next1, lag_next2, hbase, lag_nextBase]
  by_cases hp : v.prediction = b
  · rw [if_pos hp]
    split_ifs <;> omega
  · rw [if_neg hp]
    by_cases hused : v.hit2 ∧ v.gauge2.u ≠ 0
    · -- made from the `T2` entry, which is trained
      obtain ⟨h2, hu⟩ := hused
      have hlag : Automata.lag 2 b v.gauge2.counter ≠ 0 := fun h0 => hp <| by
        rw [lag_eq_zero_iff] at h0
        simpa [prediction, h2, hu, Gauge.taken] using h0
      simp only [h2, if_true]
      split_ifs <;> omega
    · have halt : v.altPred ≠ b := fun ha => hp <| by
        rw [← ha, prediction, if_neg]
        simpa using hused
      cases h1 : v.hit1 with
      | true =>
          -- made from the `T1` entry, which no hit of `T2` shadows
          have hlag : Automata.lag 2 b v.gauge1.counter ≠ 0 := fun h0 => halt <| by
            rw [lag_eq_zero_iff] at h0
            simpa [altPred, h1, Gauge.taken] using h0
          have h2 : v.hit2 = false := by
            by_contra h2
            rw [Bool.not_eq_false] at h2
            refine h ⟨h1, h2, not_not.mp fun hu => hused ⟨h2, hu⟩, ?_⟩
            simpa [altPred, h1] using halt
          simp only [h2, if_true, Bool.false_eq_true, if_false]
          omega
      | false =>
          -- made from the base counter, which always is
          have hlag : Automata.lag 2 b v.base ≠ 0 := fun h0 => halt <| by
            rw [lag_eq_zero_iff] at h0
            simpa [altPred, h1] using h0
          split_ifs <;> omega

end View

/-- The counters in use never lack more than ten trainings. -/
theorem Lookup.lag_view_le {v : Lookup} (h : v.Valid) (b : Bool) : v.view.lag b ≤ 10 := by
  have hbase : Automata.lag 2 b v.base.toNat ≤ 2 := by
    have := h.base
    unfold lag
    split <;> omega
  have hgauge : ∀ {entry : TageEntry}, entry.Valid → Automata.lag 2 b entry.gauge.counter ≤ 4 := by
    intro entry hentry
    have := hentry.le_counter
    have := hentry.counter_le
    simp only [lag, TageEntry.gauge]
    split <;> omega
  have h1 := hgauge h.entry1
  have h2 := hgauge h.entry2
  have hview : v.view.base = v.base.toNat := rfl
  rw [View.lag, hview, view_hit1, view_hit2, view_gauge1, view_gauge2]
  split_ifs <;> omega

/-! ## Runs of one branch to one side -/

/-- Every event that counts is an execution of one branch to one side. -/
def Constant (range : Range) (ip : ADDRINT) (b : Bool) (es : List Event) : Prop :=
  ∀ e ∈ es, range.Contains e.ip → e.ip = ip ∧ e.isTaken = b

theorem Constant.path_eq {range : Range} {ip : ADDRINT} {b : Bool} {es : List Event}
    (h : Constant range ip b es) :
    range.path es = List.replicate (range.path es).length b := by
  apply List.eq_replicate_of_mem
  intro outcome houtcome
  obtain ⟨e, he, rfl⟩ := List.mem_map.mp houtcome
  rw [Range.inRange, List.mem_filter, decide_eq_true_eq] at he
  exact (h e he.1 he.2).2

/-- The register when it holds nothing but one outcome. -/
def full (b : Bool) : ℕ :=
  register 16 (List.replicate 16 b)

theorem push_full (b : Bool) : push 16 (full b) b = full b := by
  cases b <;> decide

theorem register_append_replicate (l : List Bool) (b : Bool) {n : ℕ} (hn : 16 ≤ n) :
    register 16 (l ++ List.replicate n b) = full b := by
  rw [full, register_eq_iff, lastInputs, lastInputs]
  simp [List.take_append_of_le_length, hn]

section

variable {range : Range} {s : State} {ip : ADDRINT} {b : Bool}

theorem trapped_iff (hs : s.Valid) : (s.lookup ip).view.Trapped b ↔ s.Trapped ip b := by
  have h1 := TageEntry.taken_gauge (hs.t1 (s.idx1 ip))
  have h2 := TageEntry.u_eq_zero_iff (s.deref (.t2 (s.idx2 ip)))
  unfold View.Trapped State.Trapped
  rw [← h1, h2]
  rfl

/-- With a full register the branch looks the same entries up again. -/
theorem lookup_step (hip : range.Contains ip) (hghr : s.ghr.toNat = full b) (target : ADDRINT) :
    (step range s ⟨ip, target, b⟩).lookup ip =
      let v := s.lookup ip
      let due : Bool := (s.clock + 1) % 1024 = 0
      ⟨MyBranch.bump b v.base, v.tag1, v.tag2, (v.next1 b).halve due, (v.next2 b).halve due⟩ := by
  have ht0 := getD_t0_step (e := ⟨ip, target, b⟩) hip s ip
  have ht1 := deref_t1_step (e := ⟨ip, target, b⟩) hip s (s.idx1 ip)
  have ht2 := deref_t2_step (e := ⟨ip, target, b⟩) hip s (s.idx2 ip)
  have hghr' := toNat_ghr_step (e := ⟨ip, target, b⟩) hip s
  generalize step range s ⟨ip, target, b⟩ = s' at *
  have hstay : s'.ghr = s.ghr := by rw [← UInt64.toNat_inj, hghr', hghr, push_full]
  have hidx1 : s'.idx1 ip = s.idx1 ip := by simp only [State.idx1, hstay]
  have hidx2 : s'.idx2 ip = s.idx2 ip := by simp only [State.idx2, hstay]
  rw [if_pos rfl] at ht0 ht1 ht2
  simp only [State.lookup, hidx1, hidx2, ht0, ht1, ht2, State.tag1, State.tag2, hstay]

theorem view_step (hip : range.Contains ip) (hs : s.Valid) (hghr : s.ghr.toNat = full b)
    (target : ADDRINT) :
    ((step range s ⟨ip, target, b⟩).lookup ip).view =
      (s.lookup ip).view.next b ((s.clock + 1) % 1024 = 0) := by
  have hv := hs.lookup ip
  rw [lookup_step hip hghr]
  ext1
  · exact MyBranch.toNat_bump hv.base b
  · simp only [Lookup.view_hit1, Lookup.hit1, TageEntry.tag_halve]
    exact Lookup.hit_next1 hv b
  · simp only [Lookup.view_hit2, Lookup.hit2, TageEntry.tag_halve]
    exact Lookup.hit_next2 hv b
  · rw [Lookup.view_gauge1, TageEntry.gauge_halve, Lookup.gauge_next1 hv]
    rfl
  · rw [Lookup.view_gauge2, TageEntry.gauge_halve, Lookup.gauge_next2 hv]
    rfl

theorem wrong_of_contains (hip : range.Contains ip) (hs : s.Valid) (target : ADDRINT) :
    wrong range s ⟨ip, target, b⟩ = if (s.lookup ip).view.prediction = b then 0 else 1 := by
  rw [wrong, Lookup.view_prediction (hs.lookup ip), lookup_prediction]
  simp [hip]

/-- Outside the trap the potential pays for an event. -/
theorem wrong_add_lag_le {e : Event} (he : range.Contains e.ip) (hs : s.Valid)
    (hghr : s.ghr.toNat = full e.isTaken) (h : ¬ s.Trapped e.ip e.isTaken) :
    wrong range s e + ((step range s e).lookup e.ip).view.lag e.isTaken ≤
      (s.lookup e.ip).view.lag e.isTaken := by
  have hpaid := View.lag_next (s.lookup e.ip).view e.isTaken ((s.clock + 1) % 1024 = 0)
    ((trapped_iff hs).not.mpr h)
  rwa [← view_step he hs hghr e.target, ← wrong_of_contains he hs e.target] at hpaid

/-- In the trap every event is mispredicted. -/
theorem missed_replicate_of_trapped (hip : range.Contains ip) (hs : s.Valid)
    (hghr : s.ghr.toNat = full b) (h : s.Trapped ip b) (target : ADDRINT) (n : ℕ) :
    missed range s (List.replicate n ⟨ip, target, b⟩) = n := by
  induction n generalizing s with
  | zero => rfl
  | succ n ih =>
      have hview := (trapped_iff hs).mpr h
      have hnext := hview.next ((s.clock + 1) % 1024 = 0)
      rw [← view_step hip hs hghr target, trapped_iff (hs.step range _)] at hnext
      have hghr' : (step range s ⟨ip, target, b⟩).ghr.toNat = full b := by
        rw [toNat_ghr_step hip, hghr, push_full]
      have hrest := ih (hs.step range ⟨ip, target, b⟩) hghr' hnext
      rw [List.replicate_succ, missed, runCost_cons, wrong_of_contains hip hs,
        if_neg hview.prediction]
      change 1 + missed range _ _ = n + 1
      rw [hrest, Nat.add_comm]

end

/-! ## When a constant branch is learned -/

section

variable {range : Range} {es : List Event} {ip : ADDRINT} {b : Bool}

theorem toNat_ghr_full {cs : List Event} (hcs : Constant range ip b cs)
    (hlong : 16 ≤ (range.path cs).length) :
    (run range cs (run range es {})).ghr.toNat = full b := by
  rw [← run_append, toNat_ghr_run, range.path_append, hcs.path_eq]
  exact register_append_replicate _ b hlong

/-- Until the register is full an event may miss; from then on the potential
pays, unless the branch is trapped. -/
theorem missed_le_of_never_trapped (hip : range.Contains ip)
    (hnever : ∀ cs, Constant range ip b cs → 16 ≤ (range.path cs).length →
      ¬ (run range cs (run range es {})).Trapped ip b)
    {cs : List Event} (hcs : Constant range ip b cs) :
    missed range (run range es {}) cs ≤ (range.path cs).length ∧
      (16 ≤ (range.path cs).length → missed range (run range es {}) cs +
        ((run range cs (run range es {})).lookup ip).view.lag b ≤ 26) := by
  induction cs using List.reverseRecOn with
  | nil => exact ⟨Nat.zero_le _, fun h => absurd h (by simp [Range.path, Range.inRange])⟩
  | append_singleton cs e ih =>
      have hcs' : Constant range ip b cs := fun e' he' => hcs e' (List.mem_append_left _ he')
      obtain ⟨hshort, hlong⟩ := ih hcs'
      have hvalid : (run range cs (run range es {})).Valid := by
        rw [← run_append]
        exact valid_run range _
      rw [missed_concat, run_concat]
      by_cases he : range.Contains e.ip
      · obtain ⟨rfl, rfl⟩ := hcs e (by simp) he
        rw [range.length_path_concat_of_contains cs he]
        have hone : wrong range (run range cs (run range es {})) e ≤ 1 := by
          rw [wrong]
          split <;> omega
        refine ⟨by omega, ?_⟩
        intro hfull
        by_cases hbefore : 16 ≤ (range.path cs).length
        · have hpaid := wrong_add_lag_le he hvalid (toNat_ghr_full hcs' hbefore)
            (hnever cs hcs' hbefore)
          have := hlong hbefore
          omega
        · have := Lookup.lag_view_le ((hvalid.step range e).lookup e.ip) e.isTaken
          omega
      · rw [range.path_concat_of_not_contains cs he, step_of_not_contains he, wrong,
          if_neg fun h => he h.1, Nat.add_zero]
        exact ⟨hshort, hlong⟩

/-- **When TAGE learns a constant branch.**  Exactly if no event after the
register has filled finds the branch trapped, the mispredictions are bounded,
and then by a bound that does not depend on the state. -/
theorem constant_learned_iff (range : Range) (es : List Event) (ip : ADDRINT) (b : Bool)
    (hip : range.Contains ip) :
    let s := run range es {}
    let NeverTrapped := ∀ cs, Constant range ip b cs → 16 ≤ (range.path cs).length →
      ¬ (run range cs s).Trapped ip b
    ((∀ cs, Constant range ip b cs → missed range s cs ≤ 26) ↔ NeverTrapped) ∧
      ((∃ K, ∀ cs, Constant range ip b cs → missed range s cs ≤ K) ↔ NeverTrapped) := by
  intro s NeverTrapped
  have hbounded : NeverTrapped → ∀ cs, Constant range ip b cs → missed range s cs ≤ 26 := by
    intro hnever cs hcs
    obtain ⟨hshort, hlong⟩ := missed_le_of_never_trapped hip hnever hcs
    rcases Nat.lt_or_ge (range.path cs).length 16 with hlt | hge
    · calc missed range s cs
          ≤ (range.path cs).length := hshort
        _ ≤ 26 := by omega
    · calc missed range s cs
          ≤ missed range s cs + ((run range cs s).lookup ip).view.lag b := Nat.le_add_right _ _
        _ ≤ 26 := hlong hge
  have hunbounded : (∃ K, ∀ cs, Constant range ip b cs → missed range s cs ≤ K) →
      NeverTrapped := by
    rintro ⟨K, hK⟩ cs hcs hlong htrapped
    have hvalid : (run range cs s).Valid := by
      rw [← run_append]
      exact valid_run range _
    have hmore := missed_replicate_of_trapped hip hvalid (toNat_ghr_full hcs hlong) htrapped 0
      (K + 1)
    have hcs' : Constant range ip b (cs ++ List.replicate (K + 1) ⟨ip, 0, b⟩) := by
      intro e he hc
      rcases List.mem_append.mp he with he | he
      · exact hcs e he hc
      · rw [List.eq_of_mem_replicate he]
        exact ⟨rfl, rfl⟩
    have hle := hK _ hcs'
    rw [missed, runCost_append] at hle
    change missed range s cs + missed range (run range cs s) _ ≤ K at hle
    omega
  exact ⟨⟨fun h => hunbounded ⟨26, h⟩, hbounded⟩, hunbounded, fun h => ⟨26, hbounded h⟩⟩

/-- Branch 4 leaves an entry in both tables, and sixteen executions of branch 8
empty the register: from then on a branch 4 that is never taken is always
predicted taken. -/
def trappingStream : List Event :=
  [⟨4, 0, false⟩, ⟨4, 0, true⟩] ++ List.replicate 16 ⟨8, 0, false⟩

theorem constant_learned_iff_trapping :
    ¬ ∃ K, ∀ cs, Constant ⟨0, 100⟩ 4 false cs →
      missed ⟨0, 100⟩ (run ⟨0, 100⟩ trappingStream {}) cs ≤ K := fun h =>
  (constant_learned_iff ⟨0, 100⟩ trappingStream 4 false (by decide)).2.mp h
    (List.replicate 16 ⟨4, 0, false⟩)
    (fun e he _ => by rw [List.eq_of_mem_replicate he]; exact ⟨rfl, rfl⟩)
    (by decide) (by decide +kernel)

theorem constant_branch_not_learned :
    ¬ ∃ K, ∀ (range : Range) (es : List Event) (ip : ADDRINT) (b : Bool), range.Contains ip →
      ∀ cs, Constant range ip b cs → missed range (run range es {}) cs ≤ K := by
  rintro ⟨K, hK⟩
  have htrapped : (run ⟨0, 100⟩ trappingStream {}).Trapped 4 false := by decide +kernel
  have hghr : (run ⟨0, 100⟩ trappingStream {}).ghr.toNat = full false := by decide +kernel
  have hip : Range.Contains ⟨0, 100⟩ 4 := by decide
  have hmissed := missed_replicate_of_trapped hip
    (valid_run _ trappingStream) hghr htrapped 0 (K + 1)
  have hconstant : Constant ⟨0, 100⟩ 4 false (List.replicate (K + 1) ⟨4, 0, false⟩) := by
    intro e he _
    rw [List.eq_of_mem_replicate he]
    exact ⟨rfl, rfl⟩
  have := hK ⟨0, 100⟩ trappingStream 4 false (by decide) _ hconstant
  omega

end

end BranchPrediction.MyTage
