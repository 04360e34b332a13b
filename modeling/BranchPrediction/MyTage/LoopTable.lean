import BranchPrediction.MyTage.Loop
import Mathlib.Data.List.Dedup
import Mathlib.Tactic.IntervalCases

/-!
# Which loops are learned

The tags a loop of `k` looks up are finitely many.  An address whose low bits
are none of them never hits an entry that was not allocated, so it behaves like
any other such address; the rest are run one by one.  Each run is followed until
its contexts are stable, which `View.label` decides, and then it is known for
ever (`loopMisses_add`).

Six runs take more than a thousand events: an entry that only the first passes
used holds the place of the exit's, and gives it up at the first halving.
-/

namespace BranchPrediction.MyTage

open Automata

/-! ## Deciding that a run has settled -/

/-- The flag of a context that is stable, and nothing if it is not. -/
def View.label (clock wait : ℕ) (v : View) (b : Bool) : Option Bool :=
  if v.hit1 ∧ v.hit2 ∧ v.gauge2.u = 0 ∧ v.gauge1.taken ≠ b then some true
  else if v.altPred = b ∧ (v.hit2 → v.gauge2.taken = b) then some false
  else if v.hit2 ∧ v.gauge2.taken = b ∧
    (2 ≤ v.gauge2.u ∨ v.gauge2.u = 1 ∧ clock % 1024 + wait < 1024) then some false
  else none

theorem View.stable_of_label {clock wait : ℕ} {v : View} {b trapped : Bool}
    (h : v.label clock wait b = some trapped) : v.Stable clock wait b trapped := by
  unfold View.label at h
  split at h
  · next htrapped =>
      obtain rfl := Option.some.inj h
      exact .trapped htrapped
  · split at h
    · next hfine =>
        obtain rfl := Option.some.inj h
        exact .fine hfine.1 hfine.2
    · split at h
      · next hkept =>
          obtain rfl := Option.some.inj h
          exact .kept hkept.1 hkept.2.1 hkept.2.2
      · cases h

/-- The flags of contexts that come one after the other, if all are stable. -/
def Relative.labels (p : ℕ) (s : Relative) (wait : ℕ) : List Context → Option (List Bool)
  | [] => some []
  | x :: xs =>
    match (s.view p x).label s.clock wait x.outcome, s.labels p (wait + 1) xs with
    | some trapped, some flags => some (trapped :: flags)
    | _, _ => none

theorem Relative.stable_of_labels {p : ℕ} {s : Relative} {wait : ℕ} {xs : List Context}
    {flags : List Bool} (h : s.labels p wait xs = some flags) :
    flags.length = xs.length ∧ ∀ i x trapped, (xs.zip flags)[i]? = some (x, trapped) →
      (s.view p x).Stable s.clock (wait + i) x.outcome trapped := by
  induction xs generalizing wait flags with
  | nil =>
      obtain rfl := Option.some.inj h
      exact ⟨rfl, fun i x t hx => by simp at hx⟩
  | cons x xs ih =>
      rw [Relative.labels] at h
      split at h
      · next trapped flags' hx hxs =>
          obtain rfl := Option.some.inj h
          obtain ⟨hlength, hstable⟩ := ih hxs
          refine ⟨congrArg (· + 1) hlength, ?_⟩
          intro i y t hy
          cases i with
          | zero =>
              obtain ⟨rfl, rfl⟩ := Prod.mk.inj (Option.some.inj hy)
              exact View.stable_of_label hx
          | succ i =>
              rw [← Nat.add_assoc, Nat.add_right_comm]
              exact hstable i y t hy
      · cases h

/-- All numbers of a state, added up: to evaluate the sum is to evaluate the state. -/
def Relative.weight (s : Relative) : ℕ :=
  s.clock + ((s.t1 ++ s.t2).map fun c => c.1 + c.2.tag + c.2.gauge.counter + c.2.gauge.u).sum

/-- Passes under a full register.  Each starts from a state that has been
evaluated, which makes no difference but to the depth of the evaluation. -/
def passes (p k : ℕ) : ℕ → Relative → Relative
  | 0, s => s
  | n + 1, s =>
    let s' := (passContexts k).foldl (Relative.step p) s
    bif Nat.beq s.weight 0 then passes p k n s' else passes p k n s'

/-- What the branch sees `n` passes after the register is full. -/
def settledState (p k n : ℕ) : Relative :=
  passes p k n (afterLoops p k (filled k))

theorem settledState_eq (p k n : ℕ) : settledState p k n = afterLoops p k (filled k + n) := by
  have hpasses : ∀ n m, filled k ≤ m →
      passes p k n (afterLoops p k m) = afterLoops p k (m + n) := by
    intro n
    induction n with
    | zero => exact fun _ _ => rfl
    | succ n ih =>
        intro m hm
        rw [passes, Bool.cond_self, ← afterLoops_succ p hm, ih (m + 1) (hm.trans m.le_succ),
          Nat.add_right_comm, Nat.add_assoc]
  exact hpasses n (filled k) le_rfl

/-- Whether some context is trapped `n` passes after the register is full, if
the run has settled. -/
def settles (p k n : ℕ) : Option Bool :=
  ((settledState p k n).labels p 0 (passContexts k)).map (·.any id)

/-- The contexts of a pass look up different `T2` entries. -/
def Distinct (k : ℕ) : Prop :=
  (passContexts k).Pairwise fun x y => (x.index2, x.tag2) ≠ (y.index2, y.tag2)

instance (k : ℕ) : Decidable (Distinct k) :=
  inferInstanceAs (Decidable (List.Pairwise _ _))

theorem settled_of_settles {p k n : ℕ} {trapped : Bool} (hk : k ≤ 15) (hdistinct : Distinct k)
    (h : settles p k n = some trapped) :
    ∃ xs : List (Context × Bool), xs.map Prod.fst = passContexts k ∧
      Settled p (afterLoops p k (filled k + n)) xs ∧
        (xs.countP Prod.snd = 0 ↔ trapped = false) := by
  rw [settles, settledState_eq] at h
  obtain ⟨flags, hflags, rfl⟩ := Option.map_eq_some_iff.mp h
  obtain ⟨hlength, hstable⟩ := Relative.stable_of_labels hflags
  have hfst : ((passContexts k).zip flags).map Prod.fst = passContexts k :=
    List.map_fst_zip hlength.ge
  have hsnd : ((passContexts k).zip flags).map Prod.snd = flags := List.map_snd_zip hlength.le
  refine ⟨(passContexts k).zip flags, hfst, ⟨?_, ?_, ?_⟩, ?_⟩
  · intro i x t hx
    have := hstable i x t hx
    rwa [Nat.zero_add] at this
  · rw [Distinct, ← hfst, List.pairwise_map] at hdistinct
    exact hdistinct
  · rw [List.length_zip, hlength, Nat.min_self, passContexts, length_contexts, length_loop]
    omega
  · have hcount : ((passContexts k).zip flags).countP Prod.snd = flags.countP id := by
      rw [← hsnd, List.countP_map, hsnd]
      rfl
    rw [hcount, List.countP_eq_zero]
    simp

/-! ## Addresses that look alike -/

/-- The tags a loop looks up. -/
def pathTags (k : ℕ) : List ℕ :=
  ((contexts 0 (loops true k (filled k + 1))).flatMap fun x => [x.tag1, x.tag2]).dedup

theorem contexts_loops_subset (k m : ℕ) :
    contexts 0 (loops true k m) ⊆ contexts 0 (loops true k (filled k + 1)) := by
  have hmono : ∀ {m n}, m ≤ n → contexts 0 (loops true k m) ⊆ contexts 0 (loops true k n) := by
    intro m n hmn
    induction n, hmn using Nat.le_induction with
    | base => exact fun _ h => h
    | succ n _ ih =>
        rw [loops_succ', contexts_append]
        exact fun x hx => List.mem_append_left _ (ih hx)
  rcases Nat.le_total m (filled k + 1) with hm | hm
  · exact hmono hm
  · induction m, hm using Nat.le_induction with
    | base => exact fun _ h => h
    | succ m hm ih =>
        rw [contexts_loops_succ (Nat.le_of_succ_le hm)]
        refine List.append_subset.mpr ⟨ih, ?_⟩
        rw [contexts_loops_succ le_rfl]
        exact List.subset_append_right _ _

theorem passContexts_subset (k : ℕ) :
    passContexts k ⊆ contexts 0 (loops true k (filled k + 1)) := by
  rw [contexts_loops_succ le_rfl]
  exact List.subset_append_right _ _

theorem tags_lt {h : ℕ} {l : List Bool} {x : Context} (hx : x ∈ contexts h l) :
    x.tag1 < blank ∧ x.tag2 < blank := by
  induction l generalizing h with
  | nil => cases hx
  | cons b l ih =>
      rcases List.mem_cons.mp hx with rfl | hx
      · exact ⟨historyTag_lt _, historyTag_lt _⟩
      · exact ih hx

/-- An address part that is no tag looked up: no entry that was never allocated hits. -/
def Unseen (p : ℕ) (xs : List Context) : Prop :=
  ∀ x ∈ xs, p ≠ x.tag1 ∧ p ≠ x.tag2

section

variable {p q : ℕ}

theorem Cell.hits_congr {c : Cell} {t : ℕ} (hp : p ≠ t) (hq : q ≠ t) :
    c.hits p t = c.hits q t := by
  have hne : ∀ {r}, r ≠ t → Nat.beq r t = false := by
    intro r hr
    rw [← Bool.not_eq_true, Nat.beq_eq]
    exact hr
  rw [hits, hits, hne hp, hne hq]

theorem Relative.view_congr {s : Relative} {x : Context} (hp : p ≠ x.tag1 ∧ p ≠ x.tag2)
    (hq : q ≠ x.tag1 ∧ q ≠ x.tag2) : s.view p x = s.view q x := by
  rw [view, view, Cell.hits_congr hp.1 hq.1, Cell.hits_congr hp.2 hq.2]

theorem Relative.foldl_step_congr {xs : List Context} (hp : Unseen p xs) (hq : Unseen q xs)
    (s : Relative) : xs.foldl (step p) s = xs.foldl (step q) s := by
  induction xs generalizing s with
  | nil => rfl
  | cons x xs ih =>
      have hview : s.view p x = s.view q x :=
        view_congr (hp x (List.mem_cons_self ..)) (hq x (List.mem_cons_self ..))
      have hstep : s.step p x = s.step q x := by rw [step, step, hview]
      rw [List.foldl_cons, List.foldl_cons, hstep]
      exact ih (fun y hy => hp y (List.mem_cons_of_mem x hy))
        (fun y hy => hq y (List.mem_cons_of_mem x hy)) _

theorem Relative.labels_congr {xs : List Context} (hp : Unseen p xs) (hq : Unseen q xs)
    (s : Relative) (wait : ℕ) : s.labels p wait xs = s.labels q wait xs := by
  induction xs generalizing wait with
  | nil => rfl
  | cons x xs ih =>
      rw [labels, labels,
        view_congr (hp x (List.mem_cons_self ..)) (hq x (List.mem_cons_self ..)),
        ih (fun y hy => hp y (List.mem_cons_of_mem x hy))
          (fun y hy => hq y (List.mem_cons_of_mem x hy))]

variable {k : ℕ}

theorem unseen_of_not_mem (hp : p ∉ pathTags k) :
    Unseen p (contexts 0 (loops true k (filled k + 1))) := by
  intro x hx
  have hmem : ∀ t ∈ [x.tag1, x.tag2], t ∈ pathTags k := fun t ht =>
    List.mem_dedup.mpr (List.mem_flatMap.mpr ⟨x, hx, ht⟩)
  exact ⟨fun h => hp (h ▸ hmem x.tag1 (by simp)), fun h => hp (h ▸ hmem x.tag2 (by simp))⟩

theorem unseen_blank (h : ℕ) (l : List Bool) : Unseen blank (contexts h l) := fun _ hx =>
  ⟨(tags_lt hx).1.ne', (tags_lt hx).2.ne'⟩

/-- All addresses whose low bits are no tag of the loop behave alike. -/
theorem settles_congr (hp : p ∉ pathTags k) (n : ℕ) : settles p k n = settles blank k n := by
  have hp' := unseen_of_not_mem hp
  have hq := unseen_blank 0 (loops true k (filled k + 1))
  have hafter : afterLoops p k (filled k + n) = afterLoops blank k (filled k + n) :=
    Relative.foldl_step_congr (fun x hx => hp' x (contexts_loops_subset k _ hx))
      (fun x hx => hq x (contexts_loops_subset k _ hx)) _
  have hlabels := Relative.labels_congr (fun x hx => hp' x (passContexts_subset k hx))
    (fun x hx => hq x (passContexts_subset k hx)) (afterLoops p k (filled k + n)) 0
  rw [settles, settles, settledState_eq, settledState_eq, hlabels, hafter]

end

/-! ## The table -/

/-- The loops that are learned: those whose exit `T1` can tell from the body, and
one that the tags of entries never allocated save. -/
def learned (p k : ℕ) : Bool :=
  k ≤ 8 || (k == 9 && p == 49729)

/-- The passes under a full register after which a run has settled. -/
def patience (p k : ℕ) : ℕ :=
  if 13 ≤ k ∧ p ∈ [7169, 14337, 28673] then 73 else 2

/-- Every run settles, and with a trapped context exactly if the loop is not learned. -/
theorem loop_table {k : ℕ} (hk : 1 ≤ k) (hk' : k ≤ 15) :
    ∀ p ∈ blank :: pathTags k, settles p k (patience p k) = some (!learned p k) := by
  interval_cases k <;> decide +kernel

theorem distinct_of_le {k : ℕ} (hk : 1 ≤ k) (hk' : k ≤ 15) : Distinct k := by
  interval_cases k <;> decide +kernel

/-- Every loop settles, for every address. -/
theorem exists_settled {p k : ℕ} (hk : 1 ≤ k) (hk' : k ≤ 15) :
    ∃ n ≥ filled k, ∃ xs : List (Context × Bool), xs.map Prod.fst = passContexts k ∧
      Settled p (afterLoops p k n) xs ∧ (xs.countP Prod.snd = 0 ↔ learned p k) := by
  have htable := loop_table hk hk'
  have hdistinct := distinct_of_le hk hk'
  by_cases hp : p ∈ pathTags k
  · obtain ⟨xs, hxs, hsettled, hcount⟩ := settled_of_settles hk' hdistinct
      (htable p (List.mem_cons_of_mem _ hp))
    refine ⟨_, Nat.le_add_right _ _, xs, hxs, hsettled, hcount.trans ?_⟩
    rw [Bool.not_eq_false']
  · have hsettles := htable blank (List.mem_cons_self ..)
    rw [← settles_congr hp] at hsettles
    obtain ⟨xs, hxs, hsettled, hcount⟩ := settled_of_settles hk' hdistinct hsettles
    refine ⟨_, Nat.le_add_right _ _, xs, hxs, hsettled, hcount.trans ?_⟩
    have hspecial : 49729 ∈ pathTags 9 := by decide +kernel
    have hne : k = 9 → p ≠ 49729 := by
      rintro rfl rfl
      exact hp hspecial
    rw [Bool.not_eq_false']
    simp only [learned, blank]
    grind

/-! ## Bounded and unbounded loops -/

theorem loopMisses_le (p k m : ℕ) : loopMisses p k m ≤ m * (k + 1) := by
  have hmiss : ∀ s x, Relative.miss p s x ≤ 1 := by
    intro s x
    rw [Relative.miss]
    split <;> omega
  calc loopMisses p k m
      ≤ (contexts 0 (loops true k m)).length := runCost_le_length _ _ hmiss _ _
    _ = m * (k + 1) := by rw [length_contexts, length_loops]

theorem bounded_iff_learned {p k : ℕ} (hk : 1 ≤ k) (hk' : k ≤ 15) :
    (∃ K, ∀ m, loopMisses p k m ≤ K) ↔ learned p k := by
  obtain ⟨n, hn, xs, hxs, hsettled, hcount⟩ := exists_settled (p := p) hk hk'
  have hadd := fun m => (loopMisses_add hn hxs hsettled m).2
  rw [← hcount]
  constructor
  · rintro ⟨K, hK⟩
    by_contra hpos
    -- every further pass is charged for a trapped context
    have hlarge : K < loopMisses p k (n + (K + 1)) := by
      calc K < K + 1 := Nat.lt_succ_self K
        _ ≤ (K + 1) * xs.countP Prod.snd :=
            Nat.le_mul_of_pos_right _ (Nat.pos_of_ne_zero hpos)
        _ ≤ loopMisses p k n + (K + 1) * xs.countP Prod.snd := Nat.le_add_left _ _
        _ = loopMisses p k (n + (K + 1)) := (hadd _).symm
    exact absurd (hK _) (Nat.not_le.mpr hlarge)
  · intro h0
    refine ⟨n * (k + 1), ?_⟩
    intro m
    rcases Nat.le_total m n with hm | hm
    · calc loopMisses p k m
          ≤ m * (k + 1) := loopMisses_le p k m
        _ ≤ n * (k + 1) := Nat.mul_le_mul_right _ hm
    · obtain ⟨d, rfl⟩ := Nat.exists_eq_add_of_le hm
      calc loopMisses p k (n + d)
          = loopMisses p k n := by rw [hadd, h0, Nat.mul_zero, Nat.add_zero]
        _ ≤ n * (k + 1) := loopMisses_le p k n

theorem missed_loops {range : Range} {ip : ADDRINT} (hip : range.Contains ip) {k m : ℕ}
    (hk : 1 ≤ k) {es : List Event} (hes : ∀ e ∈ es, e.ip = ip)
    (hloops : es.map Event.isTaken = loops true k m) :
    missed range {} es = loopMisses (addressTag ip) k m := by
  rw [missed_alone hip hes (hloops ▸ predictsTaken_loops hk m), hloops]
  rfl

/-- The events of a loop of a branch that jumps to address 0. -/
def loopEvents (ip : ADDRINT) (k m : ℕ) : List Event :=
  (loops true k m).map fun b => ⟨ip, 0, b⟩

theorem ip_of_mem_loopEvents (ip : ADDRINT) (k m : ℕ) : ∀ e ∈ loopEvents ip k m, e.ip = ip := by
  intro e he
  obtain ⟨b, -, rfl⟩ := List.mem_map.mp he
  rfl

theorem isTaken_loopEvents (ip : ADDRINT) (k m : ℕ) :
    (loopEvents ip k m).map Event.isTaken = loops true k m := by
  simp [loopEvents, Function.comp_def]

/-- **Which loops TAGE learns.**  Run alone from the initial globals, a branch
taken `k` times and then not, again and again, is mispredicted boundedly often
exactly if `k` is at most eight, or if it is nine and the address ends in `c241`. -/
theorem loop_learned_iff (range : Range) (ip : ADDRINT) (k : ℕ) (hip : range.Contains ip)
    (hk : 1 ≤ k) (hk' : k ≤ 15) :
    (∃ K, ∀ m es, (∀ e ∈ es, e.ip = ip) → es.map Event.isTaken = loops true k m →
        missed range {} es ≤ K) ↔
      k ≤ 8 ∨ k = 9 ∧ ip.toNat % 2 ^ 16 = 0xc241 := by
  have hlearned : learned (addressTag ip) k ↔ k ≤ 8 ∨ k = 9 ∧ ip.toNat % 2 ^ 16 = 0xc241 := by
    simp [learned, addressTag]
  rw [← hlearned, ← bounded_iff_learned hk hk']
  constructor
  · rintro ⟨K, hK⟩
    refine ⟨K, ?_⟩
    intro m
    rw [← missed_loops hip hk (ip_of_mem_loopEvents ip k m) (isTaken_loopEvents ip k m)]
    exact hK m _ (ip_of_mem_loopEvents ip k m) (isTaken_loopEvents ip k m)
  · rintro ⟨K, hK⟩
    refine ⟨K, ?_⟩
    intro m es hes houtcomes
    rw [missed_loops hip hk hes houtcomes]
    exact hK m

theorem loop_learned_iff_eight :
    ∃ K, ∀ m es, (∀ e ∈ es, e.ip = 4) → es.map Event.isTaken = loops true 8 m →
      missed ⟨0, 100⟩ {} es ≤ K :=
  (loop_learned_iff ⟨0, 100⟩ 4 8 (by decide) (by decide) (by decide)).mpr (by decide)

/-- A loop of nine at address 4 is never learned. -/
theorem loop_of_nine_not_learned :
    ¬ ∀ (range : Range) (ip : ADDRINT) (k : ℕ), range.Contains ip → 1 ≤ k → k ≤ 15 →
      ∃ K, ∀ m es, (∀ e ∈ es, e.ip = ip) → es.map Event.isTaken = loops true k m →
        missed range {} es ≤ K := by
  intro h
  have hip : Range.Contains ⟨0, 100⟩ 4 := by decide
  obtain ⟨K, hK⟩ := h ⟨0, 100⟩ 4 9 hip (by decide) (by decide)
  have hbounded : ∃ K, ∀ m, loopMisses (addressTag 4) 9 m ≤ K := by
    refine ⟨K, ?_⟩
    intro m
    rw [← missed_loops hip (by decide) (ip_of_mem_loopEvents 4 9 m) (isTaken_loopEvents 4 9 m)]
    exact hK m _ (ip_of_mem_loopEvents 4 9 m) (isTaken_loopEvents 4 9 m)
  rw [bounded_iff_learned (by decide) (by decide)] at hbounded
  exact absurd hbounded (by decide)

end BranchPrediction.MyTage
