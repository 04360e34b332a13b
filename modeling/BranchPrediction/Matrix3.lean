import BranchPrediction.Cpp.Int
import BranchPrediction.Cpp.Loops
import BranchPrediction.MyBranch.LoopCost
import Mathlib.Algebra.BigOperators.Fin
import Mathlib.Data.Int.Order.Basic
import Mathlib.Data.Matrix.Mul

/-!
# `matrix3.cpp`

The third workload multiplies two matrices of 20 rows, here of any number of them.
Next to the matrix that is computed, the model keeps how the conditions of its three
loops turn out: `true` where the loop goes on.

The entries decide nothing here.  Whatever they are, the conditions turn out the same
way, and what the predictors miss is known to the last branch.
-/

namespace BranchPrediction.Matrix3

open Automata (loop loops loops_append)

variable {N : ℕ}

/-- The matrix that is computed, and how `k < N`, `j < N` and `i < N` have turned out. -/
structure State (N : ℕ) where
  C : Fin N → Fin N → Int32
  inner : List Bool
  middle : List Bool
  outer : List Bool

/-- `C[i][j] = x`. -/
def put (C : Fin N → Fin N → Int32) (i j : Fin N) (x : Int32) : Fin N → Fin N → Int32 :=
  Function.update C i (Function.update (C i) j x)

section

variable (A B : Fin N → Fin N → Int32)

/-- The body of the inner loop. -/
def accumulate (i j : Fin N) (s : State N) (k : Fin N) : Option (State N) := do
  let product ← Cpp.mul (A i k) (B k j)
  let sum ← Cpp.add (s.C i j) product
  some { s with C := put s.C i j sum, inner := s.inner ++ [true] }

/-- The body of the loop in the middle. -/
def cell (i : Fin N) (s : State N) (j : Fin N) : Option (State N) := do
  let s ← (List.finRange N).foldlM (accumulate A B i j) { s with middle := s.middle ++ [true] }
  some { s with inner := s.inner ++ [false] }

/-- The body of the outer loop. -/
def row (s : State N) (i : Fin N) : Option (State N) := do
  let s ← (List.finRange N).foldlM (cell A B i) { s with outer := s.outer ++ [true] }
  some { s with middle := s.middle ++ [false] }

/-- The multiplication. -/
def multiply : Option (State N) := do
  let s ← (List.finRange N).foldlM (row A B) ⟨fun _ _ => 0, [], [], []⟩
  some { s with outer := s.outer ++ [false] }

end

/-- The matrices of `main`. -/
def mainA (i j : Fin 20) : Int32 :=
  Int32.ofNat ((i + j : ℕ) % 10)

def mainB (i j : Fin 20) : Int32 :=
  Int32.ofNat ((i * j : ℕ) % 10)

/-- The values of a matrix. -/
def values (C : Fin N → Fin N → Int32) : Matrix (Fin N) (Fin N) ℤ :=
  Matrix.of fun i j => (C i j).toInt

@[simp] theorem values_apply (C : Fin N → Fin N → Int32) (i j : Fin N) :
    values C i j = (C i j).toInt := rfl

/-! ## Assignments -/

section

variable (C : Fin N → Fin N → Int32) {i j i' j' : Fin N}

@[simp] theorem put_self (x : Int32) : put C i j x i j = x := by
  simp [put]

theorem put_of_ne (h : ¬ (i' = i ∧ j' = j)) (x : Int32) : put C i j x i' j' = C i' j' := by
  unfold put
  by_cases hi : i' = i
  · subst hi
    rw [Function.update_self, Function.update_of_ne fun hj => h ⟨rfl, hj⟩]
  · rw [Function.update_of_ne hi]

@[simp] theorem put_put (x y : Int32) : put (put C i j x) i j y = put C i j y := by
  simp [put]

@[simp] theorem put_same : put C i j (C i j) = C := by
  simp [put]

end

/-! ## The inner loop -/

/-- Entries small enough for no sum of products to overflow. -/
def Moderate (A B : Fin N → Fin N → Int32) : Prop :=
  ∀ i j, ∑ k, |values A i k * values B k j| < 2 ^ 31

section

variable {A B : Fin N → Fin N → Int32}

/-- What some of the products add to an entry. -/
def partialSum (A B : Fin N → Fin N → Int32) (i j : Fin N) (ks : List (Fin N)) : ℤ :=
  (ks.map fun k => values A i k * values B k j).sum

theorem partialSum_concat (i j k : Fin N) (ks : List (Fin N)) :
    partialSum A B i j (ks ++ [k]) = partialSum A B i j ks + values A i k * values B k j := by
  simp [partialSum]

theorem partialSum_finRange (i j : Fin N) :
    partialSum A B i j (List.finRange N) = (values A * values B) i j := by
  rw [Matrix.mul_apply, Fin.sum_univ_def, partialSum]

/-- No part of the sum overflows. -/
theorem abs_partialSum_lt (h : Moderate A B) (i j : Fin N) {ks : List (Fin N)} (hks : ks.Nodup) :
    |partialSum A B i j ks| < 2 ^ 31 := by
  calc |partialSum A B i j ks|
      = |∑ k ∈ ks.toFinset, values A i k * values B k j| := by
        rw [partialSum, List.sum_toFinset _ hks]
    _ ≤ ∑ k ∈ ks.toFinset, |values A i k * values B k j| := Finset.abs_sum_le_sum_abs _ _
    _ ≤ ∑ k, |values A i k * values B k j| :=
        Finset.sum_le_univ_sum_of_nonneg fun k => abs_nonneg _
    _ < 2 ^ 31 := h i j

theorem fits_of_abs_lt {x : ℤ} (h : |x| < 2 ^ 31) : Cpp.Fits x := by
  rw [abs_lt] at h
  exact ⟨h.1.le, h.2⟩

theorem accumulate_spec (h : Moderate A B) {i j k : Fin N} {ks : List (Fin N)}
    (hks : ks ++ [k] <+: List.finRange N) {s : State N}
    (hs : (s.C i j).toInt = partialSum A B i j ks) :
    ∃ x, accumulate A B i j s k =
        some { s with C := put s.C i j x, inner := s.inner ++ [true] } ∧
      x.toInt = partialSum A B i j (ks ++ [k]) := by
  have hnodup := (List.nodup_finRange N).sublist hks.sublist
  have hproduct : Cpp.Fits ((A i k).toInt * (B k j).toInt) := by
    have hfits := abs_partialSum_lt h i j (List.nodup_singleton k)
    rw [partialSum, List.map_singleton, List.sum_singleton] at hfits
    exact fits_of_abs_lt hfits
  obtain ⟨hmul, hmulValue⟩ := Cpp.mul_spec hproduct
  have hvalue : (s.C i j).toInt + (A i k * B k j).toInt = partialSum A B i j (ks ++ [k]) := by
    rw [hs, hmulValue, partialSum_concat]
    rfl
  have hsum : Cpp.Fits ((s.C i j).toInt + (A i k * B k j).toInt) := by
    rw [hvalue]
    exact fits_of_abs_lt (abs_partialSum_lt h i j hnodup)
  obtain ⟨hadd, haddValue⟩ := Cpp.add_spec hsum
  refine ⟨s.C i j + A i k * B k j, ?_, haddValue.trans hvalue⟩
  simp [accumulate, hmul, hadd]

/-- The inner loop, on an entry that is zero. -/
theorem accumulates_spec (h : Moderate A B) {i j : Fin N} {s : State N} (hs : s.C i j = 0) :
    ∃ x, (List.finRange N).foldlM (accumulate A B i j) s =
        some { s with C := put s.C i j x, inner := s.inner ++ List.replicate N true } ∧
      x.toInt = (values A * values B) i j := by
  let after (ks : List (Fin N)) (x : Int32) : State N :=
    { s with C := put s.C i j x, inner := s.inner ++ List.replicate ks.length true }
  have hstart : s = after [] (s.C i j) := by simp [after]
  have hbody : ∀ ks k t, ks ++ [k] <+: List.finRange N →
      (∃ x, t = after ks x ∧ x.toInt = partialSum A B i j ks) →
      ∃ t', accumulate A B i j t k = some t' ∧
        ∃ x, t' = after (ks ++ [k]) x ∧ x.toInt = partialSum A B i j (ks ++ [k]) := by
    rintro ks k _ hks ⟨x, rfl, hx⟩
    have hentry : ((after ks x).C i j).toInt = partialSum A B i j ks := by
      rwa [show (after ks x).C i j = x from put_self ..]
    obtain ⟨y, hbody, hy⟩ := accumulate_spec h hks hentry
    refine ⟨_, hbody, y, ?_, hy⟩
    simp [after, List.replicate_succ']
  obtain ⟨t, hloop, x, rfl, hx⟩ :=
    Cpp.exists_foldlM _ ⟨s.C i j, hstart, by simp [hs, partialSum]⟩ hbody
  refine ⟨x, ?_, hx.trans (partialSum_finRange i j)⟩
  rw [hloop]
  simp [after]

/-! ## The other loops -/

/-- The entries of some cells are computed, and the others are zero. -/
structure Computed (A B : Fin N → Fin N → Int32) (cells : Fin N → Fin N → Prop)
    (C : Fin N → Fin N → Int32) : Prop where
  product : ∀ i j, cells i j → values C i j = (values A * values B) i j
  zero : ∀ i j, ¬ cells i j → C i j = 0

theorem Computed.put {cells : Fin N → Fin N → Prop} {C : Fin N → Fin N → Int32}
    (hC : Computed A B cells C) {i j : Fin N} {x : Int32}
    (hx : x.toInt = (values A * values B) i j) :
    Computed A B (fun i' j' => cells i' j' ∨ (i' = i ∧ j' = j)) (put C i j x) := by
  constructor
  · intro i' j' hcell
    by_cases heq : i' = i ∧ j' = j
    · obtain ⟨rfl, rfl⟩ := heq
      simpa using hx
    · rw [values_apply, put_of_ne _ heq]
      exact hC.product i' j' (hcell.resolve_right heq)
  · intro i' j' hcell
    rw [not_or] at hcell
    exact (put_of_ne _ hcell.2 x).trans (hC.zero i' j' hcell.1)

theorem cell_of_loop {i j : Fin N} {s t : State N} (h : (List.finRange N).foldlM
      (accumulate A B i j) { s with middle := s.middle ++ [true] } = some t) :
    cell A B i s j = some { t with inner := t.inner ++ [false] } := by
  rw [cell, h]
  rfl

theorem row_of_loop {i : Fin N} {s t : State N} (h : (List.finRange N).foldlM
      (cell A B i) { s with outer := s.outer ++ [true] } = some t) :
    row A B s i = some { t with middle := t.middle ++ [false] } := by
  rw [row, h]
  rfl

/-- The body of the loop in the middle computes one entry more. -/
theorem cell_spec (h : Moderate A B) {cells : Fin N → Fin N → Prop} {s : State N}
    (hs : Computed A B cells s.C) {i j : Fin N} (hcell : ¬ cells i j) :
    ∃ s', cell A B i s j = some s' ∧
      Computed A B (fun i' j' => cells i' j' ∨ (i' = i ∧ j' = j)) s'.C ∧
      s'.inner = s.inner ++ loop true N ∧ s'.middle = s.middle ++ [true] ∧ s'.outer = s.outer := by
  have hzero : ({ s with middle := s.middle ++ [true] } : State N).C i j = 0 := hs.zero i j hcell
  obtain ⟨x, hloop, hx⟩ := accumulates_spec h hzero
  refine ⟨_, cell_of_loop hloop, hs.put hx, ?_, rfl, rfl⟩
  simp [loop]

/-- The body of the outer loop computes one row more. -/
theorem row_spec (h : Moderate A B) {is : List (Fin N)} {i : Fin N} (hi : i ∉ is) {s : State N}
    (hs : Computed A B (fun i' _ => i' ∈ is) s.C) :
    ∃ s', row A B s i = some s' ∧ Computed A B (fun i' _ => i' ∈ is ++ [i]) s'.C ∧
      s'.inner = s.inner ++ loops true N N ∧ s'.middle = s.middle ++ loop true N ∧
      s'.outer = s.outer ++ [true] := by
  let I (js : List (Fin N)) (t : State N) : Prop :=
    Computed A B (fun i' j' => i' ∈ is ∨ (i' = i ∧ j' ∈ js)) t.C ∧
      t.inner = s.inner ++ loops true N js.length ∧
      t.middle = s.middle ++ List.replicate js.length true ∧ t.outer = s.outer ++ [true]
  have hstart : I [] { s with outer := s.outer ++ [true] } := by
    refine ⟨?_, by simp [loops], by simp, rfl⟩
    simpa using hs
  have hbody : ∀ js j t, js ++ [j] <+: List.finRange N → I js t →
      ∃ t', cell A B i t j = some t' ∧ I (js ++ [j]) t' := by
    rintro js j t hjs ⟨hcomputed, hinner, hmiddle, houter⟩
    have hj := Cpp.notMem_of_prefix (List.nodup_finRange N) hjs
    obtain ⟨t', hcell, hcomputed', hinner', hmiddle', houter'⟩ :=
      cell_spec h hcomputed (i := i) (j := j) (by simp [hi, hj])
    refine ⟨t', hcell, ?_, ?_, ?_, houter'.trans houter⟩
    · simpa [or_assoc, and_or_left] using hcomputed'
    · rw [hinner', hinner, List.length_append, List.length_singleton, loops_append,
        List.append_assoc]
      simp [loops]
    · rw [hmiddle', hmiddle, List.length_append, List.length_singleton, List.replicate_succ',
        List.append_assoc]
  obtain ⟨t, hloop, hcomputed, hinner, hmiddle, houter⟩ := Cpp.exists_foldlM I hstart hbody
  refine ⟨_, row_of_loop hloop, ?_, ?_, ?_, houter⟩
  · simpa using hcomputed
  · simpa using hinner
  · simp [hmiddle, loop]

/-- What the loops end with. -/
theorem multiply_spec (h : Moderate A B) :
    ∃ s, multiply A B = some s ∧ values s.C = values A * values B ∧
      s.inner = loops true N (N * N) ∧ s.middle = loops true N N ∧ s.outer = loops true N 1 := by
  let I (is : List (Fin N)) (s : State N) : Prop :=
    Computed A B (fun i _ => i ∈ is) s.C ∧ s.inner = loops true N (is.length * N) ∧
      s.middle = loops true N is.length ∧ s.outer = List.replicate is.length true
  have hstart : I [] ⟨fun _ _ => 0, [], [], []⟩ :=
    ⟨⟨by simp, by simp⟩, by simp [loops], by simp [loops], rfl⟩
  have hbody : ∀ is i s, is ++ [i] <+: List.finRange N → I is s →
      ∃ s', row A B s i = some s' ∧ I (is ++ [i]) s' := by
    rintro is i s his ⟨hcomputed, hinner, hmiddle, houter⟩
    have hi := Cpp.notMem_of_prefix (List.nodup_finRange N) his
    obtain ⟨s', hrow, hcomputed', hinner', hmiddle', houter'⟩ := row_spec h hi hcomputed
    refine ⟨s', hrow, hcomputed', ?_, ?_, ?_⟩
    · rw [hinner', hinner, List.length_append, List.length_singleton, Nat.succ_mul, loops_append]
    · rw [hmiddle', hmiddle, List.length_append, List.length_singleton, loops_append]
      simp [loops]
    · rw [houter', houter, List.length_append, List.length_singleton, List.replicate_succ']
  obtain ⟨s, hloop, hcomputed, hinner, hmiddle, houter⟩ := Cpp.exists_foldlM I hstart hbody
  rw [List.length_finRange] at hinner hmiddle houter
  refine ⟨{ s with outer := s.outer ++ [false] }, ?_, ?_, hinner, hmiddle, ?_⟩
  · rw [multiply, hloop]
    rfl
  · ext i j
    exact hcomputed.product i j (List.mem_finRange i)
  · simp [houter, loops, loop]

end

/-- **The workload multiplies matrices.**  No operation of the program is undefined, the
product is the exact one, and its loops go on as often as there are rows, whatever
the entries are. -/
theorem multiply_product (A B : Fin N → Fin N → Int32) (h : Moderate A B) :
    ∃ s, multiply A B = some s ∧ values s.C = values A * values B ∧
      s.inner = loops true N (N * N) ∧ s.middle = loops true N N ∧ s.outer = loops true N 1 :=
  multiply_spec h

/-- Entries of one digit, and not too many of them. -/
theorem moderate_of_digits {A B : Fin N → Fin N → Int32} (hA : ∀ i k, |values A i k| ≤ 9)
    (hB : ∀ k j, |values B k j| ≤ 9) (hN : N * 81 < 2 ^ 31) : Moderate A B := by
  intro i j
  calc ∑ k, |values A i k * values B k j|
      ≤ ∑ _k : Fin N, (81 : ℤ) := by
        apply Finset.sum_le_sum
        intro k _
        rw [abs_mul]
        exact mul_le_mul (hA i k) (hB k j) (abs_nonneg _) (by decide)
    _ = (N * 81 : ℕ) := by simp
    _ < 2 ^ 31 := by exact_mod_cast hN

theorem abs_digit (x : ℕ) : |(Int32.ofNat (x % 10)).toInt| ≤ 9 := by
  have hx : x % 10 < 10 := Nat.mod_lt x (by decide)
  rw [Int32.toInt_ofNat_of_lt (by omega), abs_of_nonneg (by omega)]
  omega

theorem multiply_product_main : ∃ s, multiply mainA mainB = some s ∧
    values s.C = values mainA * values mainB ∧
    s.inner = loops true 20 (20 * 20) ∧ s.middle = loops true 20 20 ∧ s.outer = loops true 20 1 :=
  multiply_product mainA mainB
    (moderate_of_digits (fun _ _ => abs_digit _) (fun _ _ => abs_digit _) (by decide))

/-! ## What the loops cost -/

theorem map_loops (goesOn : Bool) (k m : ℕ) :
    (loops true k m).map (goesOn == ·) = loops goesOn k m := by
  have hloop : (loop true k).map (goesOn == ·) = loop goesOn k := by
    cases goesOn <;> simp [loop]
  rw [loops, List.map_flatten, List.map_replicate, hloop, loops]

/-- A loop of two rounds or more costs the hybrid its exits, and one miss more if it is
not taken to go on. -/
theorem contributed_loops {range : Range} {es : List Event} {ip : ADDRINT} {goesOn : Bool}
    {k m : ℕ} (hk : 2 ≤ k) (hm : 1 ≤ m) (h : range.outcomes es ip = loops goesOn k m) :
    MyBranch.contributed range MyBranch.miss1 ip {} es = 2 * m - 1 ∧
      MyBranch.contributed range MyBranch.miss2 ip {} es = m + (if goesOn then 0 else 1) ∧
      MyBranch.contributed range MyBranch.missH ip {} es = m + (if goesOn then 0 else 1) := by
  obtain ⟨m, rfl⟩ := Nat.exists_eq_add_of_le' hm
  obtain ⟨k, rfl⟩ := Nat.exists_eq_add_of_le' hk
  cases goesOn with
  | true =>
      obtain ⟨h1, h2, hH⟩ := MyBranch.contributed_of_costs range
        ((congrArg _ h).trans (MyBranch.Replay.costs_loops_taken (k + 1) m))
      rw [h1, h2, hH, if_pos rfl]
      omega
  | false =>
      obtain ⟨h1, h2, hH⟩ := MyBranch.contributed_of_costs range
        ((congrArg _ h).trans (MyBranch.Replay.costs_loops_not_taken k m))
      rw [h1, h2, hH, if_neg Bool.false_ne_true]
      omega

/-- **The loops cost the same for all matrices.**  However the compiler has the branches
of the three loops go on, and whatever else is executed, the hybrid and the 2-bit
predictor miss each exit of a loop, the 1-bit predictor also the round after it. -/
theorem loops_missed (A B : Fin N → Fin N → Int32) (h : Moderate A B) (hN : 2 ≤ N)
    {s : State N} (hs : multiply A B = some s) (goesOn : Bool) (range : Range) (es : List Event)
    (i j k : ADDRINT) (hi : range.outcomes es i = s.outer.map (goesOn == ·))
    (hj : range.outcomes es j = s.middle.map (goesOn == ·))
    (hk : range.outcomes es k = s.inner.map (goesOn == ·)) :
    let missed q := MyBranch.contributed range q i {} es + MyBranch.contributed range q j {} es +
      MyBranch.contributed range q k {} es
    let late : ℤ := if goesOn then 0 else 3
    missed MyBranch.miss1 = 2 * (N ^ 2 + N) - 1 ∧
      missed MyBranch.miss2 = N ^ 2 + N + 1 + late ∧
      missed MyBranch.missH = N ^ 2 + N + 1 + late := by
  intro missed late
  obtain ⟨s', hs', -, hinner, hmiddle, houter⟩ := multiply_spec h
  obtain rfl : s = s' := Option.some.inj (hs.symm.trans hs')
  rw [houter, map_loops] at hi
  rw [hmiddle, map_loops] at hj
  rw [hinner, map_loops] at hk
  obtain ⟨hi1, hi2, hiH⟩ := contributed_loops hN le_rfl hi
  obtain ⟨hj1, hj2, hjH⟩ := contributed_loops hN (by omega) hj
  obtain ⟨hk1, hk2, hkH⟩ := contributed_loops hN (Nat.mul_pos (by omega) (by omega)) hk
  have hlate : late = (if goesOn then 0 else 1) + (if goesOn then 0 else 1) +
      (if goesOn then 0 else 1) := by
    cases goesOn <;> rfl
  refine ⟨?_, ?_, ?_⟩
  · simp only [missed, hi1, hj1, hk1]
    push_cast
    ring
  · simp only [missed, hi2, hj2, hk2, hlate]
    push_cast
    ring
  · simp only [missed, hiH, hjH, hkH, hlate]
    push_cast
    ring

/-- The branches of the three loops, one loop after the other. -/
def loopEvents (s : State N) : List Event :=
  (s.outer.map fun b => ⟨4, 0, b⟩) ++ (s.middle.map fun b => ⟨5, 0, b⟩) ++
    s.inner.map fun b => ⟨6, 0, b⟩

theorem loops_missed_two : ∃ s : State 2, multiply (fun _ _ => 1) (fun _ _ => 3) = some s ∧
    MyBranch.contributed ⟨1, 9⟩ MyBranch.missH 4 {} (loopEvents s) +
      MyBranch.contributed ⟨1, 9⟩ MyBranch.missH 5 {} (loopEvents s) +
      MyBranch.contributed ⟨1, 9⟩ MyBranch.missH 6 {} (loopEvents s) = 7 := by
  have hmoderate : Moderate (fun _ _ : Fin 2 => 1) fun _ _ => 3 :=
    moderate_of_digits (by decide) (by decide) (by decide)
  obtain ⟨s, hs, -, hinner, hmiddle, houter⟩ := multiply_spec hmoderate
  refine ⟨s, hs, (loops_missed _ _ hmoderate le_rfl hs true ⟨1, 9⟩ _ 4 5 6 ?_ ?_ ?_).2.2⟩ <;>
    rw [loopEvents, hinner, hmiddle, houter] <;> decide

end BranchPrediction.Matrix3
