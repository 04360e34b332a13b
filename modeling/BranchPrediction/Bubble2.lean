import BranchPrediction.Cpp.Loops
import BranchPrediction.MyBranch.Static
import BranchPrediction.Sorting.Inversions
import Mathlib.Data.Bool.Count
import Mathlib.Data.Int.ConditionallyCompleteOrder

/-!
# `bubble2.cpp`

The second workload sorts an array of 50 entries, here of any number of them, by
exchanging neighbours.  Next to the array the model keeps the outcomes of
`arr[j] > arr[j + 1]`, the one condition that depends on the data.

The array of `main` is sorted in reverse.  Every comparison then finds its two
entries the wrong way round, and the condition never changes its outcome.
-/

namespace BranchPrediction.Bubble2

open Sorting

variable {n : ℕ}

/-- The array, and how the comparisons have turned out. -/
structure State (n : ℕ) where
  arr : Fin n → Int32
  outcomes : List Bool

/-- The body of the inner loop.  It has no result for an entry beyond the array. -/
def compare (s : State n) (j : ℕ) : Option (State n) :=
  if h : j + 1 < n then
    let here : Fin n := ⟨j, Nat.lt_of_succ_lt h⟩
    let next : Fin n := ⟨j + 1, h⟩
    if s.arr here > s.arr next then
      let temp := s.arr here
      some ⟨Function.update (Function.update s.arr here (s.arr next)) next temp,
        s.outcomes ++ [true]⟩
    else some { s with outcomes := s.outcomes ++ [false] }
  else none

/-- The inner loop. -/
def pass (s : State n) (i : ℕ) : Option (State n) :=
  (List.range (n - i - 1)).foldlM compare s

/-- The outer loop. -/
def bubbleSort (arr : Fin n → Int32) : Option (State n) :=
  (List.range (n - 1)).foldlM pass ⟨arr, []⟩

/-- The array of `main`, sorted in reverse. -/
def reversed (n : ℕ) (i : Fin n) : Int32 :=
  Int32.ofNat (n - i)

/-- The values of an array. -/
def values (arr : Fin n → Int32) (i : Fin n) : ℤ :=
  (arr i).toInt

/-- Two neighbours change places if they are the wrong way round. -/
theorem compare_spec (s : State n) {here next : Fin n} (h : (next : ℕ) = here + 1) :
    compare s here = some
      (if values s.arr next < values s.arr here
        then ⟨s.arr ∘ Equiv.swap here next, s.outcomes ++ [true]⟩
        else ⟨s.arr, s.outcomes ++ [false]⟩) := by
  have hlt : (here : ℕ) + 1 < n := h ▸ next.isLt
  have hnext : (⟨here + 1, hlt⟩ : Fin n) = next := Fin.ext h.symm
  have hswap : Function.update (Function.update s.arr here (s.arr next)) next (s.arr here) =
      s.arr ∘ Equiv.swap here next := by
    rw [Equiv.swap_comm, Equiv.comp_swap_eq_update]
  have hgreater : s.arr here > s.arr next ↔ values s.arr next < values s.arr here :=
    Int32.lt_iff_toInt_lt
  rw [compare, dif_pos hlt]
  simp only [hnext, Fin.eta, hgreater, hswap]
  split <;> rfl

/-- The loops after `i` passes and `j` comparisons of the next one. -/
structure Progress (arr : Fin n → Int32) (i j : ℕ) (s : State n) : Prop where
  perm : ∃ σ : Equiv.Perm (Fin n), s.arr = arr ∘ σ
  count : s.outcomes.count true + (inversions (values s.arr)).card = (inversions (values arr)).card
  length : s.outcomes.length = ∑ k ∈ Finset.range i, (n - 1 - k) + j
  settled : ∀ a b : Fin n, b ≤ a → n ≤ a + i → values s.arr b ≤ values s.arr a
  greatest : ∀ a b : Fin n, b ≤ a → (a : ℕ) = j → values s.arr b ≤ values s.arr a

theorem values_comp (f : Fin n → Int32) (σ : Equiv.Perm (Fin n)) :
    values (f ∘ σ) = values f ∘ σ := rfl

/-- An exchange does not reach beyond the two neighbours. -/
theorem swap_le {here next a b : Fin n} (h : here < next) (ha : next < a) (hba : b ≤ a) :
    Equiv.swap here next b ≤ a := by
  rw [Equiv.swap_apply_def]
  split
  · exact ha.le
  · split
    · exact (h.trans ha).le
    · exact hba

section

variable {arr : Fin n → Int32} {i j : ℕ} {s : State n}

/-- A comparison of the inner loop. -/
theorem Progress.compare (h : Progress arr i j s) (hj : i + j + 1 < n) :
    ∃ s', compare s j = some s' ∧ Progress arr i (j + 1) s' := by
  let here : Fin n := ⟨j, by omega⟩
  let next : Fin n := ⟨j + 1, by omega⟩
  have hnext : (next : ℕ) = here + 1 := rfl
  have hneighbours : here < next := Fin.lt_def.mpr (by omega)
  have hgreatest : ∀ b, b ≤ here → values s.arr b ≤ values s.arr here :=
    fun b hb => h.greatest here b hb rfl
  have hbelow : ∀ b, b ≤ next → b = next ∨ b ≤ here := by
    intro b hb
    rw [Fin.le_def] at hb ⊢
    rw [Fin.ext_iff]
    omega
  obtain ⟨σ, hperm⟩ := h.perm
  refine ⟨_, compare_spec s hnext, ?_⟩
  by_cases hlt : values s.arr next < values s.arr here
  · rw [if_pos hlt]
    have hcard := card_inversions_swap hnext hlt
    have hcount := h.count
    refine ⟨⟨(Equiv.swap here next).trans σ, ?_⟩, ?_, ?_, ?_, ?_⟩
    · rw [hperm]
      rfl
    · rw [List.count_append, List.count_singleton_self, values_comp]
      omega
    · simp [h.length, Nat.add_assoc]
    · intro a b hba ha
      have hnextLt : next < a := Fin.lt_def.mpr (show j + 1 < (a : ℕ) by omega)
      rw [values_comp, Function.comp_apply, Function.comp_apply,
        Equiv.swap_apply_of_ne_of_ne (hneighbours.trans hnextLt).ne' hnextLt.ne']
      exact h.settled a _ (swap_le hneighbours hnextLt hba) ha
    · intro a b hba ha
      obtain rfl : a = next := Fin.ext ha
      rw [values_comp, Function.comp_apply, Function.comp_apply, Equiv.swap_apply_right]
      rcases hbelow b hba with rfl | hb
      · rw [Equiv.swap_apply_right]
      · rcases hb.eq_or_lt with rfl | hb
        · rw [Equiv.swap_apply_left]
          exact hlt.le
        · rw [Equiv.swap_apply_of_ne_of_ne hb.ne (hb.trans hneighbours).ne]
          exact hgreatest b hb.le
  · rw [if_neg hlt]
    refine ⟨⟨σ, hperm⟩, ?_, ?_, h.settled, ?_⟩
    · simpa using h.count
    · simp [h.length, Nat.add_assoc]
    · intro a b hba ha
      obtain rfl : a = next := Fin.ext ha
      rcases hbelow b hba with rfl | hb
      · exact le_rfl
      · exact (hgreatest b hb).trans (not_lt.mp hlt)

/-- The inner loop, from its start. -/
theorem Progress.comparisons (h : Progress arr i 0 s) (hj : i + j < n) :
    ∃ s', (List.range j).foldlM Bubble2.compare s = some s' ∧ Progress arr i j s' := by
  apply Cpp.exists_foldlM_range (Progress arr i) h
  intro k hk s hs
  exact hs.compare (by omega)

/-- A pass settles one entry more. -/
theorem Progress.pass (h : Progress arr i 0 s) (hi : i < n) :
    ∃ s', pass s i = some s' ∧ Progress arr (i + 1) 0 s' := by
  obtain ⟨s', hs', h'⟩ := h.comparisons (j := n - i - 1) (by omega)
  refine ⟨s', hs', h'.perm, h'.count, ?_, ?_, ?_⟩
  · rw [h'.length, Finset.sum_range_succ]
    omega
  · intro a b hba ha
    by_cases hlast : n ≤ a + i
    · exact h'.settled a b hba hlast
    · exact h'.greatest a b hba (by omega)
  · intro a b hba ha
    have hba' : b = a := by
      rw [Fin.le_def] at hba
      exact Fin.ext (by omega)
    rw [hba']

theorem Progress.passes (h : Progress arr 0 0 s) (hi : i ≤ n) :
    ∃ s', (List.range i).foldlM Bubble2.pass s = some s' ∧ Progress arr i 0 s' := by
  apply Cpp.exists_foldlM_range (fun i => Progress arr i 0) h
  intro k hk s hs
  exact hs.pass (by omega)

end

theorem progress_start (arr : Fin n → Int32) : Progress arr 0 0 ⟨arr, []⟩ := by
  refine ⟨⟨Equiv.refl _, rfl⟩, by simp, by simp, ?_, ?_⟩
  · intro a b _ ha
    have := a.isLt
    omega
  · intro a b hba ha
    have hba' : b = a := by
      rw [Fin.le_def] at hba
      exact Fin.ext (by omega)
    rw [hba']

/-- What the loops end with. -/
theorem bubbleSort_spec (arr : Fin n → Int32) :
    ∃ s, bubbleSort arr = some s ∧
      (∃ σ : Equiv.Perm (Fin n), s.arr = arr ∘ σ) ∧ Monotone (values s.arr) ∧
      s.outcomes.length = (pairs n).card ∧
      s.outcomes.count true = (inversions (values arr)).card := by
  obtain ⟨s, hs, h⟩ := (progress_start arr).passes (i := n - 1) (by omega)
  have hmonotone : Monotone (values s.arr) := by
    intro b a hba
    rcases hba.eq_or_lt with rfl | hlt
    · exact le_rfl
    · rw [Fin.lt_def] at hlt
      exact h.settled a b hba (by omega)
  refine ⟨s, hs, h.perm, hmonotone, ?_, ?_⟩
  · rw [h.length, card_pairs, Nat.add_zero]
    cases n with
    | zero => rfl
    | succ n => rw [Finset.sum_range_succ, Nat.add_sub_cancel, Nat.sub_self, Nat.add_zero]
  · have hcount := h.count
    rwa [monotone_iff_inversions.mp hmonotone, Finset.card_empty, Nat.add_zero] at hcount

/-- What is charged for the comparisons, however the compiler turns them round. -/
theorem minority_outcomes {arr : Fin n → Int32} {s : State n} (hs : bubbleSort arr = some s)
    {l : List Bool} (hl : l = s.outcomes ∨ l = s.outcomes.map not) :
    MyBranch.minority l = min (inversions (values arr)).card
      ((pairs n).card - (inversions (values arr)).card) := by
  obtain ⟨s', hs', -, -, hlength, hcount⟩ := bubbleSort_spec arr
  obtain rfl : s = s' := Option.some.inj (hs.symm.trans hs')
  have hsum := List.count_true_add_count_false s.outcomes
  have hfalse : s.outcomes.count false =
      (pairs n).card - (inversions (values arr)).card := by omega
  rcases hl with rfl | rfl
  · rw [MyBranch.minority, hcount, hfalse]
  · have hnot : ∀ b, (s.outcomes.map not).count b = s.outcomes.count !b := by
      intro b
      have hcount := List.count_map_of_injective s.outcomes not Bool.involutive_not.injective !b
      rwa [Bool.not_not] at hcount
    rw [MyBranch.minority, hnot, hnot, Bool.not_true, Bool.not_false, hcount, hfalse, min_comm]

/-- **The order of the array decides what can be missed.**  In any run of the workload,
the comparisons cost each of the three predictors at most twice the inversions of the
array, or the pairs that are none, whichever are fewer, and one miss more. -/
theorem comparisons_missed (arr : Fin n → Int32) {s : State n} (hs : bubbleSort arr = some s)
    (range : Range) (es : List Event) (ip : ADDRINT)
    (hes : range.outcomes es ip = s.outcomes ∨ range.outcomes es ip = s.outcomes.map not) :
    let inverted := (inversions (values arr)).card
    let fewer := min inverted ((pairs n).card - inverted)
    MyBranch.contributed range MyBranch.miss1 ip {} es ≤ (2 * fewer : ℕ) ∧
      MyBranch.contributed range MyBranch.miss2 ip {} es ≤ (2 * fewer + 1 : ℕ) ∧
      MyBranch.contributed range MyBranch.missH ip {} es ≤ (2 * fewer + 1 : ℕ) := by
  intro inverted fewer
  obtain ⟨h1, h2, hH⟩ := MyBranch.contributed_run range [] es ip
  obtain ⟨hlast, htwo, hchosen⟩ := MyBranch.misses_le_minority (range.outcomes es ip)
  rw [minority_outcomes hs hes] at hlast htwo hchosen
  rw [← MyBranch.runCost_miss1] at hlast
  rw [← MyBranch.runCost_twoPred] at htwo
  exact ⟨h1.trans_le (Nat.cast_le.mpr hlast), h2.trans_le (Nat.cast_le.mpr htwo),
    hH.trans_le (Nat.cast_le.mpr hchosen)⟩

theorem comparisons_missed_reversed : ∃ s, bubbleSort (reversed 3) = some s ∧
    MyBranch.contributed ⟨1, 9⟩ MyBranch.missH 4 {} (s.outcomes.map fun b => ⟨4, 5, b⟩) ≤ 1 := by
  obtain ⟨s, hs, -⟩ := bubbleSort_spec (reversed 3)
  have hcontains : Range.Contains ⟨1, 9⟩ 4 := by decide
  have hes := Range.outcomes_map ⟨1, 9⟩ hcontains 5 s.outcomes
  exact ⟨s, hs, (comparisons_missed (reversed 3) hs ⟨1, 9⟩ _ 4 (Or.inl hes)).2.2⟩

/-- The array of `main` is one of those. -/
theorem strictAnti_reversed (hn : n < 2 ^ 31) : StrictAnti (values (reversed n)) := by
  intro a b hab
  have hvalue : ∀ c : Fin n, values (reversed n) c = n - c := by
    intro c
    have hc := c.isLt
    rw [values, reversed, Int32.toInt_ofNat_of_lt (by omega)]
    omega
  rw [Fin.lt_def] at hab
  rw [hvalue, hvalue]
  omega

end BranchPrediction.Bubble2
