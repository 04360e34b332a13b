import BranchPrediction.MyTage.Statistics

/-!
# The two tools agree on what they share

`MyBranch` and `MyTage` are two tools fed with one stream.  Their filters, their
books of the outcomes and their traces are written twice, and the base predictor
of the one is the 2-bit predictor of the other.  `Agrees` is the relation that
one event of the stream, handled by both, preserves.
-/

namespace BranchPrediction

open Cpp Automata

/-- The state of `MyBranch` and the state of `MyTage` hold the same of what both keep. -/
structure Agrees (a : MyBranch.State) (b : MyTage.State) : Prop where
  total : b.total = a.total
  taken : b.taken = a.taken
  nottaken : b.nottaken = a.nottaken
  history : ∀ ip : ADDRINT, b.history[ip]? = a.history[ip]?
  base : ∀ ip : ADDRINT, b.t0[ip]? = a.bht2[ip]?

namespace Agrees

variable {a : MyBranch.State} {b : MyTage.State}

/-- One event, handled by both tools. -/
theorem step (h : Agrees a b) (range : Range) (e : Event) :
    Agrees (MyBranch.step range a e) (MyTage.step range b e) := by
  by_cases he : range.Contains e.ip
  · obtain ⟨htotal, -, -, -, htaken, hnottaken⟩ := MyBranch.counters_step he a
    obtain ⟨htotal', -, -, htaken', hnottaken'⟩ := MyTage.counters_step he b
    have hslice := MyBranch.slice_step_of_contains he a
    have hslice' := MyTage.slice_step_of_contains he b
    refine ⟨by rw [htotal, htotal', h.total], by rw [htaken, htaken', h.taken],
      by rw [hnottaken, hnottaken', h.nottaken], ?_, ?_⟩
    · intro ip
      have hleft := congrArg MyBranch.Slice.history (hslice ip)
      have hright := congrArg MyTage.Slice.history (hslice' ip)
      refine hright.trans (Eq.trans ?_ hleft.symm)
      split
      · exact congrArg (fun past => some (Option.getD past [] ++ [e.trace])) (h.history ip)
      · exact h.history ip
    · intro ip
      have hleft := congrArg MyBranch.Slice.bht2 (hslice ip)
      have hright := congrArg MyTage.Slice.t0 (hslice' ip)
      refine hright.trans (Eq.trans ?_ hleft.symm)
      split
      · exact congrArg (fun state => some (MyBranch.bump e.isTaken (Option.getD state 2)))
          (h.base ip)
      · exact h.base ip
  · rw [MyBranch.step_of_not_contains he, MyTage.step_of_not_contains he]
    exact h

/-- A stream, handled by both tools. -/
theorem run (h : Agrees a b) (range : Range) (es : List Event) :
    Agrees (MyBranch.run range es a) (MyTage.run range es b) := by
  have := foldl_simulation (R := Agrees) id (fun _ _ e h => h.step range e) h es
  rwa [List.map_id] at this

theorem initial : Agrees {} {} := ⟨rfl, rfl, rfl, fun _ => rfl, fun _ => rfl⟩

/-- The base prediction is the 2-bit prediction. -/
theorem basePred (h : Agrees a b) (ip : ADDRINT) : b.basePred ip = a.pred2Val ip := by
  rw [← MyTage.lookup_basePred, MyBranch.pred2Val_eq]
  exact congrArg (fun state => decide (Option.getD state (2 : UInt8) ≥ 2)) (h.base ip)

/-- Without a hit it is what the tool predicts. -/
theorem prediction (h : Agrees a b) {ip : ADDRINT} (h1 : b.hit1 ip = false)
    (h2 : b.hit2 ip = false) : b.prediction ip = a.pred2Val ip := by
  rw [← h.basePred]
  simp [MyTage.State.prediction, MyTage.State.provider, h1, h2]

end Agrees

theorem agrees_run (range : Range) (es : List Event) :
    Agrees (MyBranch.run range es {}) (MyTage.run range es {}) :=
  Agrees.initial.run range es

/-! ## Sums over a map -/

theorem sum_mispredPerBranch (range : Range) (es : List Event) (hes : es.length < 2 ^ 31) :
    ((MyTage.run range es {}).mispredPerBranch.toList.map fun p => p.2.toInt).sum =
      ((∑ ip ∈ range.branches es, MyTage.misses range es ip : ℕ) : ℤ) :=
  MyBranch.sum_counted (MyTage.mispredPerBranch_run range es)
    (fun ip => (MyTage.misses_le_length range es ip).trans_lt hes) fun ip h => by
      by_contra hip
      exact h (MyTage.misses_eq_zero hip)

theorem sum_history (range : Range) (es : List Event) :
    ((MyBranch.run range es {}).history.toList.map fun p => p.2.length).sum =
      ∑ ip ∈ range.branches es, (range.outcomes es ip).length := by
  have hkeys : ∀ ip traces, (MyBranch.run range es {}).history[ip]? = some traces →
      ip ∈ range.branches es := by
    intro ip traces h
    by_contra hip
    rw [MyBranch.history_run, range.eventsOf_eq_nil hip] at h
    cases h
  have hentry : ∀ ip, ((MyBranch.run range es {}).history[ip]?).elim 0 List.length =
      (range.outcomes es ip).length := by
    intro ip
    rw [MyBranch.history_run, MyBranch.recorded, Range.outcomes]
    split <;> simp [*]
  calc ((MyBranch.run range es {}).history.toList.map fun p => p.2.length).sum
      = ∑ ip ∈ range.branches es, ((MyBranch.run range es {}).history[ip]?).elim 0 List.length :=
        (MyBranch.run range es {}).history.sum_toList (fun _ traces => traces.length) hkeys
    _ = ∑ ip ∈ range.branches es, (range.outcomes es ip).length :=
        Finset.sum_congr rfl fun ip _ => hentry ip

/-- **The tools agree, and their books balance.**  What both keep is equal after
every stream; at every event in range the base prediction of `MyTage` is the
2-bit prediction of `MyBranch`, and its prediction too if no table hits; every
event is counted once everywhere; and the mispredictions a tool reports are
those it charged to the branches. -/
theorem tools_agree (range : Range) (es : List Event) (hes : es.length < 2 ^ 31) :
    let a := MyBranch.run range es {}
    let b := MyTage.run range es {}
    (b.total = a.total ∧ b.taken = a.taken ∧ b.nottaken = a.nottaken ∧
        b.history = a.history ∧ b.t0 = a.bht2) ∧
      (∀ past e future, es = past ++ e :: future → range.Contains e.ip →
        let a := MyBranch.run range past {}
        let b := MyTage.run range past {}
        b.basePred e.ip = a.pred2Val e.ip ∧
          (b.hit1 e.ip = false → b.hit2 e.ip = false → b.prediction e.ip = a.pred2Val e.ip)) ∧
      (b.total = b.tagePred ∧ b.tagePred = b.clock ∧ b.clock = b.taken + b.nottaken ∧
        b.clock = (b.history.toList.map fun p => p.2.length).sum) ∧
      (a.correctH ≤ a.predH ∧
        ((a.predH - a.correctH : ℕ) : ℤ) = (a.mispredBranch.toList.map fun p => p.2.toInt).sum) ∧
      (b.tageCorrect ≤ b.tagePred ∧
        ((b.tagePred - b.tageCorrect : ℕ) : ℤ) =
          (b.mispredPerBranch.toList.map fun p => p.2.toInt).sum) := by
  intro a b
  have h := agrees_run range es
  have hhistory : b.history = a.history := Std.ExtTreeMap.ext_getElem? h.history
  have hbase : b.t0 = a.bht2 := Std.ExtTreeMap.ext_getElem? h.base
  obtain ⟨htotal, hpred, hclock, houtcomes⟩ := MyTage.counters_run range es
  have hmissH := MyBranch.missH_run range es
  have htage := MyTage.tagePred_run range es (Finset.Subset.refl _)
  refine ⟨⟨h.total, h.taken, h.nottaken, hhistory, hbase⟩, ?_,
    ⟨htotal.trans hpred.symm, hpred.trans hclock.symm, hclock.trans houtcomes.symm, ?_⟩,
    ⟨Nat.le.intro hmissH.symm, ?_⟩, Nat.le.intro htage.symm, ?_⟩
  · intro past e _ _ _
    exact ⟨(agrees_run range past).basePred e.ip, (agrees_run range past).prediction⟩
  · rw [hhistory, sum_history, ← MyBranch.total_run, ← h.total]
    exact hclock.trans htotal.symm
  · rw [MyBranch.sum_mispredBranch range es hes, hmissH, Nat.add_sub_cancel_left]
  · rw [sum_mispredPerBranch range es hes, htage, Nat.add_sub_cancel_left]

theorem tools_agree_three :
    let es : List Event := [⟨4, 5, true⟩, ⟨4, 5, false⟩, ⟨7, 4, true⟩]
    (MyTage.run ⟨1, 9⟩ es {}).t0 = (MyBranch.run ⟨1, 9⟩ es {}).bht2 ∧
      ((MyTage.run ⟨1, 9⟩ es {}).clock = 3) :=
  ⟨(tools_agree ⟨1, 9⟩ [⟨4, 5, true⟩, ⟨4, 5, false⟩, ⟨7, 4, true⟩] (by decide)).1.2.2.2.2, by rfl⟩

end BranchPrediction
