import BranchPrediction.Json.Reads

/-!
# Numbers with a point and an exponent

The forms of a number that are not just digits: an integer with decimals, and a
number of that form with a power of ten.
-/

namespace BranchPrediction.Json

/-- A cut is made at the first character of its kind. -/
theorem cut_append {p : Char → Bool} {before : List Char} (hbefore : ∀ c ∈ before, p c = false)
    {c : Char} (hc : p c = true) (after : List Char) :
    cut p (before ++ c :: after) = (before, some after) := by
  have hpos : ∀ c' ∈ before, (fun c => !p c) c' = true := fun c' hc' => by simp [hbefore c' hc']
  rw [cut, List.dropWhile_append_of_pos hpos, List.takeWhile_append_of_pos hpos]
  simp [hc]

theorem isDigit_ne {c c' : Char} (hc : c.isDigit) (hc' : c'.isDigit = false) : c ≠ c' := by
  intro heq
  rw [heq, hc'] at hc
  cases hc

/-- The characters of a number without a sign and an exponent. -/
def isFixed (c : Char) : Bool :=
  c.isDigit || c = '.'

theorem isFixed_ne {c d : Char} (hc : isFixed c) (hdigit : d.isDigit = false)
    (hpoint : d ≠ '.') : c ≠ d := by
  rintro rfl
  simp [isFixed, hdigit, hpoint] at hc

theorem isNumeral_of_isFixed {c : Char} (hc : isFixed c) : isNumeral c := by
  simp only [isFixed, Bool.or_eq_true, decide_eq_true_eq] at hc
  rcases hc with hc | rfl
  · simp [isNumeral, hc]
  · rfl

theorem fixed_integer {int : List Char} (hint : ∀ c ∈ int, c.isDigit) {n : ℕ}
    (hn : integer int = some n) : fixed int = some (n : ℚ) := by
  rw [fixed, cut_of_forall fun c hc => decide_eq_false (isDigit_ne (hint c hc) rfl)]
  simp [hn]

theorem fixed_decimals {int frac : List Char} (hint : ∀ c ∈ int, c.isDigit) {n m : ℕ}
    (hn : integer int = some n) (hm : natural frac = some m) :
    fixed (int ++ '.' :: frac) = some ((n : ℚ) + (m : ℚ) / 10 ^ frac.length) := by
  rw [fixed, cut_append (fun c hc => decide_eq_false (isDigit_ne (hint c hc) rfl)) rfl]
  simp [hn, hm]

section

variable {mantissa : List Char} (hmantissa : ∀ c ∈ mantissa, isFixed c)
include hmantissa

theorem numeral_eq_unsigned {rest : List Char} (hne : mantissa ≠ []) :
    numeral (mantissa ++ rest) = unsigned (mantissa ++ rest) := by
  obtain ⟨c, tail, rfl⟩ := List.exists_cons_of_ne_nil hne
  have hc := isFixed_ne (hmantissa c (List.mem_cons_self ..)) (d := '-') rfl (by decide)
  unfold numeral
  split
  · next heq => exact absurd (List.cons.inj heq).1 hc
  · rfl

theorem not_exponent {c : Char} (hc : c ∈ mantissa) : (c = 'e' || c = 'E') = false := by
  have he := isFixed_ne (hmantissa c hc) (d := 'e') rfl (by decide)
  have hE := isFixed_ne (hmantissa c hc) (d := 'E') rfl (by decide)
  simp [he, hE]

theorem fixed_ne_nil {q : ℚ} (hq : fixed mantissa = some q) : mantissa ≠ [] := by
  rintro rfl
  exact absurd hq nofun

/-- A number without an exponent. -/
theorem isNumber_of_fixed {q : ℚ} (hq : fixed mantissa = some q) : IsNumber mantissa q := by
  refine ⟨List.all_eq_true.mpr fun c hc => isNumeral_of_isFixed (hmantissa c hc), ?_⟩
  have h : numeral (mantissa ++ []) = unsigned (mantissa ++ []) :=
    numeral_eq_unsigned hmantissa (fixed_ne_nil hmantissa hq)
  rw [List.append_nil] at h
  rw [h, unsigned, cut_of_forall fun c hc => not_exponent hmantissa hc]
  exact hq

/-- A number with an exponent. -/
theorem isNumber_of_exponent {q : ℚ} (hq : fixed mantissa = some q) {exp : List Char}
    (hexp : exp.all isNumeral) {k : ℤ} (hk : exponent exp = some k) :
    IsNumber (mantissa ++ 'e' :: exp) (q * 10 ^ k) := by
  constructor
  · rw [List.all_append, List.all_cons, hexp, List.all_eq_true.mpr fun c hc =>
      isNumeral_of_isFixed (hmantissa c hc)]
    rfl
  · rw [numeral_eq_unsigned hmantissa (fixed_ne_nil hmantissa hq), unsigned,
      cut_append (fun c hc => not_exponent hmantissa hc) rfl]
    simp [hq, hk]

end

end BranchPrediction.Json
