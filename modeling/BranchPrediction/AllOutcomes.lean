import BranchPrediction.Automata.Guess
import BranchPrediction.MyBranch.Regret
import BranchPrediction.MyTage.Statistics

/-!
# All outcomes at once

Whatever the tools have learned, the hybrid, the 2-bit predictor and TAGE have to
guess every outcome that is still to come.  So for given executions they miss the
same numbers of outcomes in the same numbers of ways, one of which is that they
miss them all.  The 1-bit predictor seems to do better, by the first executions
that are never charged to it.
-/

namespace BranchPrediction

open Automata

/-- An execution of a branch in range, up to its outcome. -/
structure Site (range : Range) where
  ip : ADDRINT
  target : ADDRINT
  contains : range.Contains ip

/-- The execution, with its outcome. -/
def Site.event {range : Range} (site : Site range) (outcome : Bool) : Event :=
  ⟨site.ip, site.target, outcome⟩

/-- In how many ways the outcomes of some executions can turn out such that they
are missed `k` times. -/
def ways {range : Range} {n : ℕ} (misses : List Event → ℤ) (sites : Fin n → Site range) (k : ℕ) :
    ℕ :=
  (Finset.univ.filter fun outcomes => misses (answered Site.event sites outcomes) = k).card

theorem branches_concat {range : Range} (site : Site range) (es : List Event) (outcome : Bool) :
    range.branches (es ++ [site.event outcome]) = insert site.ip (range.branches es) := by
  have hkey : range.key (site.event outcome) = some site.ip := range.key_of_contains site.contains
  ext ip
  simp [Range.mem_branches_iff, or_and_right, exists_or, hkey, eq_comm, or_comm]

/-- The executions that are first ones. -/
theorem gifts_insert {range : Range} (sites : List (Site range)) (seen : Finset ADDRINT) :
    gifts (fun seen site => insert site.ip seen) (fun seen site => site.ip ∈ seen) seen sites =
      ((sites.map Site.ip).toFinset \ seen).card := by
  induction sites generalizing seen with
  | nil =>
      rw [List.map_nil, List.toFinset_nil, Finset.empty_sdiff]
      rfl
  | cons site sites ih =>
      rw [gifts_cons, ih, List.map_cons, List.toFinset_cons]
      by_cases h : site.ip ∈ seen
      · rw [Finset.insert_sdiff_of_mem _ h, Finset.insert_eq_of_mem h]
        simp [h]
      · have hfirst : insert site.ip (sites.map Site.ip).toFinset \ seen =
            insert site.ip ((sites.map Site.ip).toFinset \ insert site.ip seen) := by
          ext ip
          by_cases hip : ip = site.ip
          · simp [hip, h]
          · simp [hip]
        rw [hfirst, Finset.card_insert_of_notMem (by simp)]
        simp [h, Nat.add_comm]

/-- The ways of a predictor that has to guess, and whose misses are counted. -/
theorem ways_eq {σ τ : Type*} {range : Range} {step : σ → Event → σ} {cost : σ → Event → ℕ}
    {misses : σ → ℤ} {next : τ → Site range → τ} {hard : τ → Site range → Bool} {R : σ → τ → Prop}
    (h : Guesses Site.event step cost next hard R)
    (hmisses : ∀ es s, misses (es.foldl step s) = misses s + runCost step cost s es)
    {s : σ} {t : τ} (hst : R s t) {n : ℕ} (sites : Fin n → Site range) (k : ℕ) :
    let free := gifts next hard t (List.ofFn sites)
    ways (fun es => misses (es.foldl step s) - misses s) sites k =
      2 ^ free * (n - free).choose k := by
  intro free
  have hsum := guesses_add_gifts next hard t (List.ofFn sites)
  rw [List.length_ofFn] at hsum
  have hcard := h.card_cost sites hst k
  rw [show guesses next hard t (List.ofFn sites) = n - free from Nat.eq_sub_of_add_eq hsum]
    at hcard
  rw [ways, ← hcard]
  simp only [hmisses, add_sub_cancel_left, Nat.cast_inj]

theorem ways_eq_choose {σ τ : Type*} {range : Range} {step : σ → Event → σ}
    {cost : σ → Event → ℕ} {misses : σ → ℤ} {next : τ → Site range → τ} {R : σ → τ → Prop}
    (h : Guesses Site.event step cost next (fun _ _ => true) R)
    (hmisses : ∀ es s, misses (es.foldl step s) = misses s + runCost step cost s es)
    {s : σ} {t : τ} (hst : R s t) {n : ℕ} (sites : Fin n → Site range) (k : ℕ) :
    ways (fun es => misses (es.foldl step s) - misses s) sites k = n.choose k := by
  rw [ways_eq h hmisses hst, gifts_true, pow_zero, one_mul, Nat.sub_zero]

namespace MyBranch

/-- What is charged for an event in a state. -/
def charged (range : Range) (pred : Slice → Bool → Bool) : State → Event → ℕ :=
  (machine range).charge (wrong pred)

theorem charged_site {range : Range} (pred : Slice → Bool → Bool) (s : State) (site : Site range)
    (outcome : Bool) : charged range pred s (site.event outcome) =
      if pred (slice s site.ip) outcome = outcome then 0 else 1 :=
  (machine range).charge_of_key (range.key_of_contains site.contains)

theorem missed_run {range : Range} {q : State → ℤ} {pred : Slice → Bool → Bool}
    (hq : ∀ {e}, range.Contains e.ip → ∀ s,
      q (step range s e) = q s + wrong pred (slice s e.ip) e) (es : List Event) (s : State) :
    q (run range es s) = q s + runCost (step range) (charged range pred) s es := by
  induction es generalizing s with
  | nil => simp [run]
  | cons e es ih =>
      have hstep : q (step range s e) = q s + charged range pred s e := by
        by_cases h : range.Contains e.ip
        · rw [hq h, charged, (machine range).charge_of_key (range.key_of_contains h)]
          rfl
        · rw [step_of_not_contains h, charged,
            (machine range).charge_of_none (range.key_of_not_contains h)]
          simp
      have hrun : run range (e :: es) s = run range es (step range s e) := rfl
      rw [hrun, ih, hstep, runCost_cons]
      push_cast
      ring

/-- A state some run leads to that executes these branches. -/
def Came (range : Range) (s : State) (seen : Finset ADDRINT) : Prop :=
  ∃ es, run range es {} = s ∧ range.branches es = seen

theorem Came.step {range : Range} {s : State} {seen : Finset ADDRINT} (h : Came range s seen)
    (site : Site range) (outcome : Bool) :
    Came range (step range s (site.event outcome)) (insert site.ip seen) := by
  obtain ⟨es, rfl, rfl⟩ := h
  exact ⟨es ++ [site.event outcome], run_concat .., branches_concat site es outcome⟩

/-- A prediction that does not read the outcome is a guess. -/
theorem guesses_charged {range : Range} {pred : Slice → Bool → Bool}
    {hard : Finset ADDRINT → Site range → Bool}
    (hguess : ∀ es (site : Site range), hard (range.branches es) site = true →
      ∃ guess, ∀ outcome, pred (slice (run range es {}) site.ip) outcome = guess)
    (hfree : ∀ es (site : Site range), hard (range.branches es) site = false →
      ∀ outcome, pred (slice (run range es {}) site.ip) outcome = outcome) :
    Guesses Site.event (step range) (charged range pred) (fun seen site => insert site.ip seen)
      hard (Came range) where
  step h site outcome := h.step site outcome
  guess := by
    rintro s seen ⟨es, rfl, rfl⟩ site hhard
    obtain ⟨guess, hpred⟩ := hguess es site hhard
    refine ⟨guess, fun outcome => ?_⟩
    rw [charged_site, hpred]
    exact if_congr eq_comm rfl rfl
  free := by
    rintro s seen ⟨es, rfl, rfl⟩ site hhard outcome
    rw [charged_site, hfree es site hhard, if_pos rfl]

/-- The 2-bit predictor and the hybrid have to guess everything. -/
theorem guesses_two (range : Range) :
    Guesses Site.event (MyBranch.step range) (charged range fun c _ => c.pred2Val)
      (fun seen (site : Site range) => insert site.ip seen) (fun _ _ => true) (Came range) :=
  guesses_charged (fun _ _ _ => ⟨_, fun _ => rfl⟩) nofun

theorem guesses_hybrid (range : Range) :
    Guesses Site.event (MyBranch.step range) (charged range Slice.finalPred)
      (fun seen (site : Site range) => insert site.ip seen) (fun _ _ => true) (Came range) :=
  guesses_charged (fun es site _ => ⟨_, (tracks_run range es site.ip).finalPred_eq⟩) nofun

/-- The 1-bit predictor has to guess an outcome unless it is a first one. -/
theorem guesses_one (range : Range) :
    Guesses Site.event (MyBranch.step range) (charged range Slice.pred1)
      (fun seen (site : Site range) => insert site.ip seen) (fun seen site => site.ip ∈ seen)
      (Came range) := by
  have hlast : ∀ es (site : Site range),
      (Replay.after (range.outcomes es site.ip)).last = (range.outcomes es site.ip).getLast? :=
    fun es site => Replay.last_after _
  apply guesses_charged
  · intro es site hseen
    rw [decide_eq_true_eq, range.mem_branches_iff_outcomes] at hseen
    have hsome := (hlast es site).trans (List.getLast?_eq_some_getLast hseen)
    exact ⟨_, (tracks_run range es site.ip).pred1_eq hsome⟩
  · intro es site hfirst outcome
    rw [decide_eq_false_iff_not] at hfirst
    have hnone := (hlast es site).trans (by rw [range.outcomes_eq_nil hfirst, List.getLast?_nil])
    exact (tracks_run range es site.ip).pred1_cold hnone outcome

end MyBranch

namespace MyTage

/-- The misses of TAGE so far. -/
def missT (s : State) : ℤ := s.tagePred - s.tageCorrect

theorem missT_run {range : Range} (es : List Event) (s : State) :
    missT (run range es s) = missT s + runCost (step range) (wrong range) s es := by
  have h := missed_run range s es
  unfold missed at h
  unfold missT
  omega

/-- TAGE has to guess everything. -/
theorem guesses_tage (range : Range) :
    Guesses Site.event (MyTage.step range) (wrong range) (fun (_ : Unit) (_ : Site range) => ())
      (fun _ _ => true) fun _ _ => True where
  step _ _ _ := trivial
  guess := by
    intro s _ _ site _
    refine ⟨s.prediction site.ip, fun outcome => ?_⟩
    have hcontains : range.Contains (site.event outcome).ip := site.contains
    rw [wrong]
    simp only [hcontains, true_and, ne_eq, ite_not]
    exact if_congr eq_comm rfl rfl
  free _ _ := nofun

end MyTage

/-- **No predictor is better on all outcomes.**  After any past, the outcomes of any
further executions are missed `k` times by the hybrid, by the 2-bit predictor and by
TAGE in the same number of ways, that in which `k` of them can be chosen.  To the 1-bit
predictor, the first executions of branches are free. -/
theorem no_free_lunch (range : Range) (past : List Event) {n : ℕ} (sites : Fin n → Site range)
    (k : ℕ) :
    let a := MyBranch.run range past {}
    let b := MyTage.run range past {}
    let first := ((Finset.univ.image fun i => (sites i).ip) \ range.branches past).card
    ways (fun es => MyBranch.missH (MyBranch.run range es a) - MyBranch.missH a) sites k =
        n.choose k ∧
      ways (fun es => MyBranch.miss2 (MyBranch.run range es a) - MyBranch.miss2 a) sites k =
        n.choose k ∧
      ways (fun es => MyTage.missT (MyTage.run range es b) - MyTage.missT b) sites k =
        n.choose k ∧
      ways (fun es => MyBranch.miss1 (MyBranch.run range es a) - MyBranch.miss1 a) sites k =
        2 ^ first * (n - first).choose k := by
  intro a b first
  have hcame : MyBranch.Came range a (range.branches past) := ⟨past, rfl, rfl⟩
  have hfirst : gifts (fun seen (site : Site range) => insert site.ip seen)
      (fun seen site => site.ip ∈ seen) (range.branches past) (List.ofFn sites) = first := by
    rw [gifts_insert]
    congr 2
    ext ip
    simp [List.mem_ofFn]
  refine ⟨?_, ?_, ?_, ?_⟩
  · exact ways_eq_choose (MyBranch.guesses_hybrid range) (MyBranch.missed_run MyBranch.missH_step)
      hcame sites k
  · exact ways_eq_choose (MyBranch.guesses_two range) (MyBranch.missed_run MyBranch.miss2_step)
      hcame sites k
  · exact ways_eq_choose (t := ()) (MyTage.guesses_tage range) MyTage.missT_run trivial sites k
  · rw [← hfirst]
    exact ways_eq (MyBranch.guesses_one range) (MyBranch.missed_run MyBranch.miss1_step)
      hcame sites k

end BranchPrediction
