import BranchPrediction.MyBranch.Fini
import BranchPrediction.MyBranch.Statistics

/-!
# The result file holds the statistics

Read back as JSON, the file `Fini` writes after a stream gives the statistics of
that stream: the totals, the three accuracies, and for each branch the hybrid
ever mispredicted its address and its count, in the order of the addresses.

A `double` between 0 and 100 is assumed to be printed as a number of JSON.
Everything else `Fini` prints is spelled out by the model of the stream.
-/

namespace BranchPrediction.MyBranch

open Automata Cpp Json

/-- The hybrid mispredicts some event of the branch. -/
def Mispredicted (range : Range) (es : List Event) (ip : ADDRINT) : Prop :=
  ∃ past e, past ++ [e] <+: es ∧ range.Contains e.ip ∧ e.ip = ip ∧
    (run range past {}).finalPred ip e.isTaken ≠ e.isTaken

theorem mispredicted_concat (range : Range) (es : List Event) (e : Event) (ip : ADDRINT) :
    Mispredicted range (es ++ [e]) ip ↔ Mispredicted range es ip ∨ (range.Contains e.ip ∧
      e.ip = ip ∧ (run range es {}).finalPred ip e.isTaken ≠ e.isTaken) := by
  simp only [Mispredicted, concat_prefix_concat_iff]
  constructor
  · rintro ⟨past, e', ⟨rfl, rfl⟩ | hprefix, h⟩
    · exact Or.inr h
    · exact Or.inl ⟨past, e', hprefix, h⟩
  · rintro (⟨past, e', hprefix, h⟩ | h)
    · exact ⟨past, e', Or.inr hprefix, h⟩
    · exact ⟨es, e, Or.inl ⟨rfl, rfl⟩, h⟩

/-- An event gives its branch an entry in `mispredBranch` if it is mispredicted. -/
theorem isSome_mispredBranch_step (range : Range) (s : State) (e : Event) (ip : ADDRINT) :
    (step range s e).mispredBranch[ip]?.isSome ↔ s.mispredBranch[ip]?.isSome ∨
      (range.Contains e.ip ∧ e.ip = ip ∧ s.finalPred ip e.isTaken ≠ e.isTaken) := by
  by_cases he : range.Contains e.ip
  · have hslice := congrArg Slice.mispred (slice_step_of_contains he s ip)
    change (step range s e).mispredBranch[ip]? = _ at hslice
    rw [hslice, finalPred_eq]
    by_cases hip : e.ip = ip
    · have hrecord : ((slice s ip).record e).mispred =
          if (slice s ip).finalPred e.isTaken = e.isTaken then s.mispredBranch[ip]?
          else some (s.mispredBranch[ip]?.getD 0 + 1) := rfl
      rw [if_pos hip, hrecord]
      split
      · next hright => simp [hright]
      · next hwrong => simp [hip ▸ he, hip, hwrong]
    · rw [if_neg hip]
      simp [hip, slice]
  · rw [step_of_not_contains he]
    simp [he]

theorem isSome_mispredBranch_run (range : Range) (es : List Event) (ip : ADDRINT) :
    (run range es {}).mispredBranch[ip]?.isSome ↔ Mispredicted range es ip := by
  induction es using List.reverseRecOn with
  | nil => simp [run, Mispredicted]
  | append_singleton es e ih =>
      rw [mispredicted_concat, ← ih, run_concat]
      exact isSome_mispredBranch_step range _ e ip

/-! ## The entries of `mispredBranch` -/

section

variable {range : Range} {es : List Event} (hes : es.length < 2 ^ 31)
include hes

/-- An entry holds a positive count, which fits an `int`. -/
theorem toInt_pos_of_mem {it : ADDRINT × Int32}
    (hit : it ∈ (run range es {}).mispredBranch.toList) : 0 < it.2.toInt := by
  have hget := Std.ExtTreeMap.mem_toList_iff_getElem?_eq_some.mp hit
  have hcount := toInt_counted ((chooserMisses_le_length range es it.1).trans_lt hes)
  rw [← mispredBranch_run, hget, Option.getD_some] at hcount
  rw [hcount, Nat.cast_pos]
  apply Nat.pos_of_ne_zero
  intro hzero
  rw [mispredBranch_run, counted, if_pos hzero] at hget
  cases hget

end

/-- The branches and their counts. -/
def missesOf (s : State) : List (ADDRINT × ℕ) :=
  s.mispredBranch.toList.map fun it => (it.1, it.2.toInt.toNat)

theorem map_fst_missesOf (s : State) : (missesOf s).map Prod.fst = s.mispredBranch.keys := by
  rw [missesOf, List.map_map, ← Std.ExtTreeMap.map_fst_toList_eq_keys]
  rfl

theorem pairwise_missesOf (s : State) : ((missesOf s).map Prod.fst).Pairwise (· < ·) := by
  rw [map_fst_missesOf]
  exact s.mispredBranch.ordered_keys.imp Std.compare_eq_lt.mp

theorem mem_missesOf_iff (range : Range) (es : List Event) (ip : ADDRINT) :
    ip ∈ (missesOf (run range es {})).map Prod.fst ↔ Mispredicted range es ip := by
  rw [map_fst_missesOf, Std.ExtTreeMap.mem_keys, Std.ExtTreeMap.mem_iff_isSome_getElem?,
    isSome_mispredBranch_run]

section

variable {range : Range} {es : List Event} (hes : es.length < 2 ^ 31)
include hes

/-- The counts are the positive entries of `mispredBranch`. -/
theorem getElem?_of_mem_missesOf {entry : ADDRINT × ℕ}
    (hentry : entry ∈ missesOf (run range es {})) : 0 < entry.2 ∧
      (run range es {}).mispredBranch[entry.1]?.map Int32.toInt = some (entry.2 : ℤ) := by
  obtain ⟨it, hit, rfl⟩ := List.mem_map.mp hentry
  have hpos := toInt_pos_of_mem hes hit
  refine ⟨by omega, ?_⟩
  rw [Std.ExtTreeMap.mem_toList_iff_getElem?_eq_some.mp hit, Option.map_some,
    Int.toNat_of_nonneg hpos.le]

/-- The objects of the branches. -/
theorem map_branchJson : (run range es {}).mispredBranch.toList.map branchJson =
    (missesOf (run range es {})).map fun entry =>
      .obj [("pc", .str (pcString entry.1)), ("miss", .num entry.2)] := by
  rw [missesOf, List.map_map]
  apply List.map_congr_left
  intro it hit
  have hcast : ((it.2.toInt.toNat : ℕ) : ℚ) = it.2.toInt := by
    rw [← Int.cast_natCast, Int.toNat_of_nonneg (toInt_pos_of_mem hes hit).le]
  simp only [branchJson, Function.comp_apply, hcast]

/-- They add up to the misses of the hybrid. -/
theorem sum_missesOf : (((missesOf (run range es {})).map Prod.snd).sum : ℤ) =
    (run range es {}).predH - (run range es {}).correctH := by
  have hcast : ((missesOf (run range es {})).map fun entry => (entry.2 : ℤ)) =
      (run range es {}).mispredBranch.toList.map fun it => it.2.toInt := by
    rw [missesOf, List.map_map]
    exact List.map_congr_left fun it hit => Int.toNat_of_nonneg (toInt_pos_of_mem hes hit).le
  calc (((missesOf (run range es {})).map Prod.snd).sum : ℤ)
      = ((missesOf (run range es {})).map fun entry => (entry.2 : ℤ)).sum := by
        rw [Nat.cast_list_sum, List.map_map]
        rfl
    _ = ((∑ ip ∈ range.branches es, chooserMisses (range.outcomes es ip) : ℕ) : ℤ) := by
        rw [hcast, sum_mispredBranch range es hes]
    _ = (run range es {}).predH - (run range es {}).correctH := by
        rw [missH_run range es]
        push_cast
        ring

end

/-! ## The file -/

/-- The digits of an address are those of its hexadecimal numeral, in lower case. -/
theorem exists_digits_pcString (ip : ADDRINT) : ∃ digits : List Char,
    pcString ip = "0x" ++ .ofList digits ∧ (∀ c ∈ digits, c ∈ "0123456789abcdef".toList) ∧
      readHex digits = ip.toNat := by
  refine ⟨Nat.toDigits 16 ip.toNat, rfl, ?_, readHex_toDigits _⟩
  intro c hc
  obtain ⟨d, hd, rfl⟩ := exists_digit_of_mem_toDigits (by decide) hc
  interval_cases d <;> decide

/-- The predictors, with their predictions and the right ones among them. -/
def scores (s : State) : List (String × ℕ × ℕ) :=
  [("1-bit", s.predictions, s.correct), ("2-bit", s.pred2, s.correct2),
    ("Hybrid", s.predH, s.correctH)]

theorem predictors_document (s : State) : (document s).predictors =
    (scores s).map fun score => (score.1, accuracy score.2.1 score.2.2) :=
  rfl

/-- A result file that holds the statistics of a stream. -/
structure Holds (range : Range) (es : List Event) (showDouble : Double → List Char)
    (file : Value) : Prop where
  total : file.at? ["summary", "total"] = some (.num (run range es {}).total)
  mispred : file.at? ["summary", "mispred"] =
    some (.num ((run range es {}).predH - (run range es {}).correctH))
  branches : ∃ entries : List (ADDRINT × ℕ),
    file.at? ["branches"] = some (.arr (entries.map fun entry =>
      .obj [("pc", .str (pcString entry.1)), ("miss", .num entry.2)])) ∧
    (entries.map Prod.fst).Pairwise (· < ·) ∧
    (∀ ip, ip ∈ entries.map Prod.fst ↔ Mispredicted range es ip) ∧
    (∀ entry ∈ entries, 0 < entry.2 ∧
      (run range es {}).mispredBranch[entry.1]?.map Int32.toInt = some (entry.2 : ℤ)) ∧
    ((entries.map Prod.snd).sum : ℤ) = (run range es {}).predH - (run range es {}).correctH
  pc : ∀ ip, ∃ digits : List Char, pcString ip = "0x" ++ .ofList digits ∧
    (∀ c ∈ digits, c ∈ "0123456789abcdef".toList) ∧ readHex digits = ip.toNat
  accuracies : ∀ score ∈ scores (run range es {}), ∃ q v,
    accuracy score.2.1 score.2.2 = some q ∧ 0 ≤ q ∧ q ≤ 100 ∧
    (q = if score.2.1 = 0 then 0 else (score.2.2 : ℚ) / score.2.1 * 100) ∧
    IsNumber (showDouble (accuracy score.2.1 score.2.2)) v ∧
    file.at? ["predictors", score.1] = some (.num v)
  bestAccuracy : file.at? ["summary", "best_accuracy"] = file.at? ["predictors", "Hybrid"]

theorem right_le_predictions (range : Range) (es : List Event) :
    ∀ score ∈ scores (run range es {}), score.2.2 ≤ score.2.1 := by
  have h1 := miss1_run range es
  have h2 := miss2_run range es
  have hH := missH_run range es
  simp only [scores, List.mem_cons, List.not_mem_nil, or_false]
  rintro score (rfl | rfl | rfl)
  · exact Nat.le.intro h1.symm
  · exact Nat.le.intro h2.symm
  · exact Nat.le.intro hH.symm

/-- What the printed percentages are read as. -/
theorem exists_num {showDouble : Double → List Char}
    (hshow : ∀ q, 0 ≤ q → q ≤ 100 → ∃ v, IsNumber (showDouble (some q)) v) :
    ∃ num : Double → ℚ, ∀ q, 0 ≤ q → q ≤ 100 → IsNumber (showDouble (some q)) (num (some q)) := by
  have hread : ∀ x : Double, ∃ v, ∀ q, x = some q → 0 ≤ q → q ≤ 100 →
      IsNumber (showDouble x) v := by
    intro x
    by_cases hx : ∃ q, x = some q ∧ 0 ≤ q ∧ q ≤ 100
    · obtain ⟨q, rfl, h0, h100⟩ := hx
      obtain ⟨v, hv⟩ := hshow q h0 h100
      exact ⟨v, fun _ _ _ _ => hv⟩
    · exact ⟨0, fun q hq h0 h100 => absurd ⟨q, hq, h0, h100⟩ hx⟩
  choose num hnum using hread
  exact ⟨num, fun q => hnum (some q) q rfl⟩

/-- **The result file holds the statistics**, provided a `double` between 0 and
100 is printed as a number. -/
theorem fini_holds (showDouble : Double → List Char)
    (hshow : ∀ q, 0 ≤ q → q ≤ 100 → ∃ v, IsNumber (showDouble (some q)) v)
    (range : Range) (es : List Event) (hes : es.length < 2 ^ 31) :
    ∃ file, parse (fini showDouble (run range es {})) = some file ∧
      Holds range es showDouble file := by
  obtain ⟨num, hnum⟩ := exists_num hshow
  have hscore : ∀ score ∈ scores (run range es {}), ∃ q,
      accuracy score.2.1 score.2.2 = some q ∧ 0 ≤ q ∧ q ≤ 100 ∧
      (q = if score.2.1 = 0 then 0 else (score.2.2 : ℚ) / score.2.1 * 100) ∧
      IsNumber (showDouble (accuracy score.2.1 score.2.2))
        (num (accuracy score.2.1 score.2.2)) := by
    intro score hmem
    obtain ⟨q, hq, h0, h100, hratio⟩ := accuracy_eq (right_le_predictions range es score hmem)
    refine ⟨q, hq, h0, h100, hratio, ?_⟩
    rw [hq]
    exact hnum q h0 h100
  have hparse : parse (fini showDouble (run range es {})) =
      some ((document (run range es {})).toJson num) := by
    apply parse_fini
    · intro p hp
      obtain ⟨score, hmem, rfl⟩ := List.mem_map.mp (predictors_document _ ▸ hp)
      obtain ⟨q, -, -, -, -, hv⟩ := hscore score hmem
      exact hv
    · exact fun it hit => (toInt_pos_of_mem hes hit).le
  exact ⟨_, hparse,
    { total := rfl
      mispred := by
        rw [← Nat.cast_sub (right_le_predictions range es ("Hybrid", _, _) (by simp [scores]))]
        rfl
      branches := by
        refine ⟨missesOf (run range es {}), ?_, pairwise_missesOf _, mem_missesOf_iff range es,
          fun _ => getElem?_of_mem_missesOf hes, sum_missesOf hes⟩
        rw [← map_branchJson hes]
        rfl
      pc := exists_digits_pcString
      accuracies := by
        intro score hmem
        obtain ⟨q, hq, h0, h100, hratio, hv⟩ := hscore score hmem
        refine ⟨q, _, hq, h0, h100, hratio, hv, ?_⟩
        simp only [scores, List.mem_cons, List.not_mem_nil, or_false] at hmem
        rcases hmem with rfl | rfl | rfl <;> rfl
      bestAccuracy := rfl }⟩

/-- Whole percentages as the library prints them, and the others cut off. -/
def showWhole (x : Double) : List Char :=
  Nat.toDigits 10 (exact x).floor.toNat

theorem fini_holds_two :
    let es : List Event := [⟨4, 5, true⟩, ⟨4, 5, false⟩]
    ∃ file, parse (fini showWhole (run ⟨1, 9⟩ es {})) = some file ∧
      file.at? ["summary", "total"] = some (.num 2) := by
  obtain ⟨file, hparse, h⟩ := fini_holds showWhole (fun q _ _ => ⟨_, isNumber_toDigits _⟩) ⟨1, 9⟩
    [⟨4, 5, true⟩, ⟨4, 5, false⟩] (by decide)
  exact ⟨file, hparse, h.total⟩

end BranchPrediction.MyBranch
