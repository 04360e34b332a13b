import BranchPrediction.Dashboard.Page

/-!
# What the page says of the predictors

The cards and the bars are made of accuracies that went through four roundings.
What they say is still true of the exact ones: none of the roundings turns two
accuracies round, and the thresholds 70 and 80 are their own roundings.
-/

namespace BranchPrediction.Dashboard

open Cpp Json

/-- The files of a stream reach the script as the documents it renders. -/
structure FilesRead (range : Range) (es : List Event) : Prop where
  hybrid : json (MyBranch.fini showAccuracy (MyBranch.run range es {})) =
    some ((MyBranch.document (MyBranch.run range es {})).toJson fetched)
  tage : json (MyTage.fini showAccuracy (MyTage.run range es {})) =
    some ((MyTage.document (MyTage.run range es {})).toJson fetched)

theorem filesRead {es : List Event} (range : Range) (hes : es.length < 2 ^ 31) :
    FilesRead range es :=
  ⟨json_hybrid range es hes, json_tage range es hes⟩

/-! ## The cards -/

section

variable (range : Range) (es : List Event)

theorem predictions_run : (MyBranch.run range es {}).predH = (MyBranch.run range es {}).total ∧
    (MyTage.run range es {}).tagePred = (MyBranch.run range es {}).total := by
  obtain ⟨-, -, hH⟩ := MyBranch.predictions_run range es
  obtain ⟨htotal, hpred, -, -⟩ := MyTage.counters_run range es
  exact ⟨hH, hpred.trans (htotal.symm.trans (agrees_run range es).total)⟩

/-- The hybrid's accuracy and TAGE's, as the script has them. -/
theorem fetched_best :
    let a := MyBranch.run range es {}
    let b := MyTage.run range es {}
    (fetched (accuracy a.predH a.correctH) = shown (exact (accuracy a.total a.correctH)) ∧
        fetched (accuracy b.tagePred b.tageCorrect) =
          shown (exact (accuracy a.total b.tageCorrect))) ∧
      a.correctH ≤ a.total ∧ b.tageCorrect ≤ a.total := by
  intro a b
  obtain ⟨hH, hT⟩ := predictions_run range es
  have hscoreH := right_le_predictions range es ("Hybrid", a.predH, a.correctH)
    (by simp [scores, MyBranch.scores, a])
  have hscoreT := right_le_predictions range es ("TAGE", b.tagePred, b.tageCorrect)
    (by simp [scores, b])
  simp only at hscoreH hscoreT
  refine ⟨⟨?_, ?_⟩, hH ▸ hscoreH, hT ▸ hscoreT⟩
  · rw [fetched_eq (exact_nonneg hscoreH), hH]
  · rw [fetched_eq (exact_nonneg hscoreT), hT]

/-- The card of the winner. -/
theorem winner_eq :
    let a := MyBranch.run range es {}
    let b := MyTage.run range es {}
    (loaded fetched a b).innerText "winner" =
      if shown (exact (accuracy a.total a.correctH)) <
          shown (exact (accuracy a.total b.tageCorrect))
      then some (.str "TAGE wins") else some (.str "Hybrid wins") := by
  intro a b
  obtain ⟨⟨hH, hT⟩, -, -⟩ := fetched_best range es
  rw [winner_loaded]
  simp [winnerText, greater, a, b, hH, hT, apply_ite]

theorem winners_ne : (some (.str "Hybrid wins") : JsValue) ≠ some (.str "TAGE wins") := by
  simp

/-- A prediction more out of as many is shown as no less. -/
theorem shown_mono {p c c' : ℕ} (hc : c ≤ p) (hle : c ≤ c') :
    shown (exact (accuracy p c)) ≤ shown (exact (accuracy p c')) := by
  apply rounds_shown.mono _ _ (exact_nonneg hc)
  rcases Nat.eq_zero_or_pos p with rfl | hp
  · exact le_rfl
  · exact (exact_accuracy_le_iff hp).mpr hle

/-- What is shown as no more is no more, but for the roundings. -/
theorem counts_of_shown_le {p c c' : ℕ} (hc : c ≤ p) (hc' : c' ≤ p)
    (hle : shown (exact (accuracy p c)) ≤ shown (exact (accuracy p c'))) :
    c * (10 ^ 9 - 5001) ≤ c' * (10 ^ 9 + 5001) := by
  rcases Nat.eq_zero_or_pos p with rfl | hp
  · rw [Nat.le_zero.mp hc, Nat.zero_mul]
    exact Nat.zero_le _
  · have hp' : (0 : ℚ) < p := Nat.cast_pos.mpr hp
    have hexact : ∀ c : ℕ, exact (accuracy p c) = (c : ℚ) / p * 100 := by
      intro c
      rw [accuracy, if_pos hp, Double.div, if_neg hp'.ne']
      rfl
    have hlower := rounds_shown.ge (exact_nonneg hc)
    have hupper := rounds_shown.le (exact_nonneg hc')
    have hchain : (1 - 5001 / 10 ^ 9 : ℚ) * ((c : ℚ) / p * 100) ≤
        (1 + 5001 / 10 ^ 9) * ((c' : ℚ) / p * 100) := by
      rw [← hexact, ← hexact]
      exact hlower.trans (hle.trans hupper)
    have hscale : (c : ℚ) * (10 ^ 9 - 5001) ≤ c' * (10 ^ 9 + 5001) := by
      have h := mul_le_mul_of_nonneg_right hchain (show (0 : ℚ) ≤ p * 10 ^ 7 by positivity)
      have hl : (1 - 5001 / 10 ^ 9 : ℚ) * ((c : ℚ) / p * 100) * (p * 10 ^ 7) =
          c * (10 ^ 9 - 5001) := by
        field_simp
        ring
      have hr : (1 + 5001 / 10 ^ 9 : ℚ) * ((c' : ℚ) / p * 100) * (p * 10 ^ 7) =
          c' * (10 ^ 9 + 5001) := by
        field_simp
        ring
      rwa [hl, hr] at h
    have hcast : ((c * (10 ^ 9 - 5001) : ℕ) : ℚ) ≤ ((c' * (10 ^ 9 + 5001) : ℕ) : ℚ) := by
      push_cast
      linarith only [hscale]
    exact_mod_cast hcast

end

/-- **The card of the winner is right.**  On the page `render` makes of the files of a
stream, it names TAGE only if TAGE was right more often; if it does not, it names the
hybrid, and TAGE was right more often by eleven millionths at most, and not at all in a
run of less than 99980 branches. -/
theorem winner_card (range : Range) (es : List Event) :
    let a := MyBranch.run range es {}
    let b := MyTage.run range es {}
    let winner := (loaded fetched a b).innerText "winner"
    (es.length < 2 ^ 31 → FilesRead range es) ∧
      (winner = some (.str "TAGE wins") → a.correctH < b.tageCorrect) ∧
      (winner ≠ some (.str "TAGE wins") → winner = some (.str "Hybrid wins") ∧
        b.tageCorrect * (10 ^ 9 - 5001) ≤ a.correctH * (10 ^ 9 + 5001)) ∧
      (a.total < 99980 →
        (winner = some (.str "TAGE wins") ↔ a.correctH < b.tageCorrect)) := by
  intro a b winner
  obtain ⟨-, hH, hT⟩ := fetched_best range es
  have hcard : winner = _ := winner_eq range es
  have hwins : winner = some (.str "TAGE wins") → a.correctH < b.tageCorrect := by
    intro h
    by_contra hle
    rw [hcard, if_neg (not_lt.mpr (shown_mono hT (Nat.le_of_not_lt hle)))] at h
    exact winners_ne h
  have hloses : winner ≠ some (.str "TAGE wins") → winner = some (.str "Hybrid wins") ∧
      b.tageCorrect * (10 ^ 9 - 5001) ≤ a.correctH * (10 ^ 9 + 5001) := by
    intro h
    rw [hcard] at h ⊢
    split at h
    · exact absurd rfl h
    · next hle =>
        rw [if_neg hle]
        exact ⟨rfl, counts_of_shown_le hT hH (not_lt.mp hle)⟩
  refine ⟨filesRead range, hwins, hloses, fun htotal => ⟨hwins, fun hlt => ?_⟩⟩
  by_contra h
  have := (hloses h).2
  change b.tageCorrect ≤ a.total at hT
  omega

/-! ## The best accuracy and the bars -/

/-- One decimal is within a half of it. -/
theorem isNumber_toFixed {x : ℚ} (hx : 0 ≤ x) :
    ∃ v, IsNumber (toFixed 1 (some x)) v ∧ |v - x| ≤ 1 / 20 := by
  have hround : 0 ≤ round (x * 10 ^ 1) := by
    rw [round_eq]
    exact Int.floor_nonneg.mpr (by positivity)
  have hcast : ((round (x * 10 ^ 1)).toNat : ℚ) = round (x * 10 ^ 1) := by
    rw [← Int.cast_natCast, Int.toNat_of_nonneg hround]
  refine ⟨((round (x * 10 ^ 1)).toNat : ℚ) / 10 ^ 1, ?_, ?_⟩
  · rw [toFixed, if_neg (not_lt.mpr hx)]
    exact isNumber_decimal _ 1
  · have habs := abs_sub_round (x * 10 ^ 1)
    rw [hcast]
    rw [abs_le] at habs ⊢
    constructor <;> linarith only [habs.1, habs.2]

theorem shown_thresholds : shown 70 = 70 ∧ shown 80 = 80 := by
  decide +kernel

/-- A bar is shown beyond a threshold only if its accuracy is beyond it. -/
theorem lt_of_lt_shown {q c : ℚ} (hq : 0 ≤ q) (hc : shown c = c) (h : c < shown q) : c < q := by
  by_contra hle
  have := rounds_shown.mono q c hq (not_lt.mp hle)
  rw [hc] at this
  exact absurd h (not_lt.mpr this)

/-- The greater of two accuracies is shown as the greater. -/
theorem max_shown {q q' : ℚ} (hq : 0 ≤ q) (hq' : 0 ≤ q') :
    max (shown q) (shown q') = shown (max q q') := by
  rcases le_total q q' with hle | hle
  · rw [max_eq_right hle, max_eq_right (rounds_shown.mono q q' hq hle)]
  · rw [max_eq_left hle, max_eq_left (rounds_shown.mono q' q hq' hle)]

theorem barColor_num (q : ℚ) : barColor (some (.num q)) =
    if 80 < q then "#fbc02d" else if 70 < q then "#f57c00" else "#e53935" := by
  simp [barColor, number, greater]

/-- What a colour says of an accuracy. -/
structure Says (color : String) (q : ℚ) : Prop where
  three : color ∈ ["#fbc02d", "#f57c00", "#e53935"]
  yellow : color = "#fbc02d" → 80 < q
  orange : color = "#f57c00" → 70 < q ∧ q ≤ 80 + 5 / 10 ^ 4
  red : color = "#e53935" → q ≤ 70 + 4 / 10 ^ 4

/-- The colour of a bar says it of the exact accuracy. -/
theorem says_barColor {q : ℚ} (hq : 0 ≤ q) : Says (barColor (some (.num (shown q)))) q := by
  obtain ⟨h70, h80⟩ := shown_thresholds
  have hge := rounds_shown.ge hq
  rw [barColor_num]
  by_cases hyellow : 80 < shown q
  · rw [if_pos hyellow]
    exact ⟨by decide, fun _ => lt_of_lt_shown hq h80 hyellow, fun h => absurd h (by decide),
      fun h => absurd h (by decide)⟩
  · rw [if_neg hyellow]
    by_cases horange : 70 < shown q
    · rw [if_pos horange]
      refine ⟨by decide, fun h => absurd h (by decide),
        fun _ => ⟨lt_of_lt_shown hq h70 horange, ?_⟩, fun h => absurd h (by decide)⟩
      linarith only [hge, not_lt.mp hyellow]
    · rw [if_neg horange]
      refine ⟨by decide, fun h => absurd h (by decide), fun h => absurd h (by decide), fun _ => ?_⟩
      linarith only [hge, not_lt.mp horange]

/-- A bar shows a predictor: its name, the accuracy that was read for it, and a colour
that says the truth about its exact one. -/
structure Bar.Shows (bar : Bar) (p : String × Double) : Prop where
  label : ∃ text : String, bar.label = some (.str text) ∧ p.1.toList <+: text.toList
  value : bar.value = some (.num (fetched p.2))
  color : Says bar.color (exact p.2)

theorem shows_bar {text name : String} {x : Double} (hname : name.toList <+: text.toList)
    (hq : 0 ≤ exact x) :
    Bar.Shows ⟨some (.str text), some (.num (fetched x)), barColor (some (.num (fetched x)))⟩
      (name, x) :=
  ⟨⟨text, rfl, hname⟩, rfl, fetched_eq hq ▸ says_barColor hq⟩

/-- **The card of the best accuracy and the colours of the bars are right.**  On the page
`render` makes of the files of a stream, the card is within a half of its decimal of the
greater accuracy; and the bars are those of the predictors, one each, and what the
colour of a bar says of its accuracy is true of the exact one. -/
theorem best_card_and_bars (range : Range) (es : List Event) :
    let a := MyBranch.run range es {}
    let b := MyTage.run range es {}
    let page := loaded fetched a b
    (es.length < 2 ^ 31 → FilesRead range es) ∧
      (∃ text v, page.innerText "best" = some (.str (.ofList text ++ "%")) ∧ IsNumber text v ∧
        |v - max (exact (accuracy a.predH a.correctH))
            (exact (accuracy b.tagePred b.tageCorrect))| ≤ 1 / 20 + 6 / 10 ^ 4) ∧
      List.Forall₂ Bar.Shows page.bars
        ((MyTage.document b).predictors ++ (MyBranch.document a).predictors.reverse) := by
  intro a b page
  have hnonneg : ∀ p ∈ (MyBranch.document a).predictors ++ (MyTage.document b).predictors,
      0 ≤ exact p.2 := listed_nonneg range es
  refine ⟨filesRead range, ?_, ?_⟩
  · have hH := hnonneg ("Hybrid", accuracy a.predH a.correctH) (by simp [MyBranch.document])
    have hT := hnonneg ("TAGE", accuracy b.tagePred b.tageCorrect) (by simp [MyTage.document])
    simp only at hH hT
    have hmax : 0 ≤ max (exact (accuracy a.predH a.correctH))
        (exact (accuracy b.tagePred b.tageCorrect)) := le_max_of_le_left hH
    have hle : max (exact (accuracy a.predH a.correctH))
        (exact (accuracy b.tagePred b.tageCorrect)) ≤ 100 :=
      max_le (exact_le_hundred (right_le_predictions range es ("Hybrid", _, _)
        (by simp [scores, MyBranch.scores, a])))
        (exact_le_hundred (right_le_predictions range es ("TAGE", _, _) (by simp [scores, b])))
    obtain ⟨v, hv, hdecimal⟩ := isNumber_toFixed (rounds_shown.nonneg _ hmax)
    refine ⟨_, v, ?_, hv, ?_⟩
    · rw [best_loaded, bestText, fetched_eq hH, fetched_eq hT, max_shown hH hT]
    · have herror := rounds_shown.error _ hmax
      rw [abs_le] at hdecimal herror ⊢
      constructor <;> linarith only [hdecimal.1, hdecimal.2, herror.1, herror.2, hle]
  · have hT := hnonneg ("TAGE", accuracy b.tagePred b.tageCorrect) (by simp [MyTage.document])
    have hH := hnonneg ("Hybrid", accuracy a.predH a.correctH) (by simp [MyBranch.document])
    have h2 := hnonneg ("2-bit", accuracy a.pred2 a.correct2) (by simp [MyBranch.document])
    have h1 := hnonneg ("1-bit", accuracy a.predictions a.correct) (by simp [MyBranch.document])
    simp only [page, bars_loaded, charted, MyTage.document, MyBranch.document, List.zip_cons_cons,
      List.zip_nil_left, List.map_cons, List.map_nil, List.reverse_cons, List.reverse_nil,
      List.nil_append, List.cons_append, List.forall₂_cons, List.forall₂_nil_left_iff, and_true]
    exact ⟨shows_bar (by decide) hT, shows_bar (by decide) hH, shows_bar (by decide) h2,
      shows_bar (by decide) h1⟩

end BranchPrediction.Dashboard
