import BranchPrediction.Json.Decimal
import BranchPrediction.Rounding.Significant
import Mathlib.Algebra.Order.Floor.Semifield
import Mathlib.Data.Rat.Floor

/-!
# How a `double` is computed and printed

A `double` is kept as the number it stands for, here never negative.  Its
operations round to 53 binary digits; `<<` prints it with six decimal ones, as
`%g` does, and after `std::fixed` with a number of decimals, as `%f` does.

Every text printed is a number of JSON, and it denotes the `double` rounded to
the digits that are printed.
-/

namespace BranchPrediction.Cpp

open Json Rounding

/-- The nearest `double`. -/
def binary64 (x : ℚ) : ℚ :=
  significant 2 53 x

/-- The last decimal digits of a number, with leading zeros. -/
def lastDigits : ℕ → ℕ → List Char
  | 0, _ => []
  | d + 1, n => lastDigits d (n / 10) ++ [Nat.digitChar (n % 10)]

/-- A number with its last digits after a point. -/
def decimal (n d : ℕ) : List Char :=
  Nat.toDigits 10 (n / 10 ^ d) ++ if d = 0 then [] else '.' :: lastDigits d n

/-- Zeros at the end of the decimals are dropped. -/
def trim : ℕ → ℕ → ℕ × ℕ
  | n, 0 => (n, 0)
  | n, d + 1 => if n % 10 = 0 then trim (n / 10) d else (n, d + 1)

/-- The sign of an exponent and its digits, of which there are two at least. -/
def exponentText (k : ℤ) : List Char :=
  (if k < 0 then '-' else '+') ::
    if k.natAbs < 10 then '0' :: Nat.toDigits 10 k.natAbs else Nat.toDigits 10 k.natAbs

/-- Six digits, of which the first has the given exponent: with an exponent if
that is below -4 or not below 6, and without zeros at the end of the decimals. -/
def showDigits (n : ℕ) (exp : ℤ) : List Char :=
  if -4 ≤ exp ∧ exp < 6 then
    let t := trim n (5 - exp).toNat
    decimal t.1 t.2
  else
    let t := trim n 5
    decimal t.1 t.2 ++ 'e' :: exponentText exp

/-- `%g`.  The exponent is that of the number after it is rounded. -/
def showGeneral (x : ℚ) : List Char :=
  if x = 0 then ['0']
  else
    let r := significant 10 6 x
    showDigits ⌊r / unit 10 6 r⌋.toNat (Int.log 10 r)

/-- `%f` with a number of decimals. -/
def showFixed (d : ℕ) (x : ℚ) : List Char :=
  decimal (roundEven (x * 10 ^ d)).toNat d

/-! ## Decimals -/

theorem length_lastDigits (d n : ℕ) : (lastDigits d n).length = d := by
  induction d generalizing n with
  | zero => rfl
  | succ d ih => rw [lastDigits, List.length_append, ih, List.length_singleton]

theorem isDigit_digitChar : ∀ d < 10, (Nat.digitChar d).isDigit := by
  decide

theorem isDigit_lastDigits (d n : ℕ) : ∀ c ∈ lastDigits d n, c.isDigit := by
  induction d generalizing n with
  | zero => simp [lastDigits]
  | succ d ih =>
      intro c hc
      rcases List.mem_append.mp hc with hc | hc
      · exact ih _ c hc
      · rw [List.mem_singleton.mp hc]
        exact isDigit_digitChar _ (Nat.mod_lt _ (by decide))

theorem ofDigitChars_lastDigits (d n : ℕ) :
    Nat.ofDigitChars 10 (lastDigits d n) 0 = n % 10 ^ d := by
  induction d generalizing n with
  | zero => simp [lastDigits, Nat.mod_one]
  | succ d ih =>
      rw [lastDigits, Nat.ofDigitChars_append, ih,
        Nat.ofDigitChars_cons_digitChar_of_lt_ten (Nat.mod_lt _ (by decide)),
        Nat.ofDigitChars_nil, Nat.pow_succ', Nat.mod_mul]
      omega

theorem natural_lastDigits {d : ℕ} (hd : d ≠ 0) (n : ℕ) :
    natural (lastDigits d n) = some (n % 10 ^ d) := by
  have hne : lastDigits d n ≠ [] := by
    rw [← List.length_pos_iff, length_lastDigits]
    omega
  rw [natural, if_pos ⟨hne, List.all_eq_true.mpr (isDigit_lastDigits d n)⟩,
    ofDigitChars_lastDigits]

theorem isDigit_toDigits (n : ℕ) : ∀ c ∈ Nat.toDigits 10 n, c.isDigit :=
  fun _ hc => Nat.isDigit_of_mem_toDigits (by decide) (by decide) hc

theorem natural_toDigits (n : ℕ) : natural (Nat.toDigits 10 n) = some n := by
  rw [natural, if_pos ⟨Nat.toDigits_ne_nil, List.all_eq_true.mpr (isDigit_toDigits n)⟩,
    Nat.ofDigitChars_ten_toDigits]

theorem integer_toDigits (n : ℕ) : integer (Nat.toDigits 10 n) = some n := by
  rw [integer, if_neg, natural_toDigits]
  rintro ⟨hhead, hne⟩
  rcases Nat.eq_zero_or_pos n with rfl | hn
  · exact hne (Nat.toDigits_zero 10)
  · exact head?_toDigits hn hhead

theorem isFixed_decimal (n d : ℕ) : ∀ c ∈ decimal n d, isFixed c := by
  intro c hc
  rcases List.mem_append.mp hc with hc | hc
  · simp [isFixed, isDigit_toDigits _ c hc]
  · split at hc
    · cases hc
    · rcases List.mem_cons.mp hc with rfl | hc
      · rfl
      · simp [isFixed, isDigit_lastDigits d n c hc]

theorem fixed_decimal (n d : ℕ) : fixed (decimal n d) = some ((n : ℚ) / 10 ^ d) := by
  unfold decimal
  split
  · next hd =>
      subst hd
      rw [List.append_nil, fixed_integer (isDigit_toDigits _) (integer_toDigits _)]
      simp
  · next hd =>
      have hsplit : (n : ℚ) = ((n / 10 ^ d : ℕ) : ℚ) * 10 ^ d + ((n % 10 ^ d : ℕ) : ℚ) := by
        exact_mod_cast (Nat.div_add_mod' n (10 ^ d)).symm
      have hpow : (10 : ℚ) ^ d ≠ 0 := pow_ne_zero d (by norm_num)
      rw [fixed_decimals (isDigit_toDigits _) (integer_toDigits _) (natural_lastDigits hd n),
        length_lastDigits]
      congr 1
      rw [eq_div_iff hpow, add_mul, div_mul_cancel₀ _ hpow]
      exact hsplit.symm

theorem isNumber_decimal (n d : ℕ) : IsNumber (decimal n d) ((n : ℚ) / 10 ^ d) :=
  isNumber_of_fixed (isFixed_decimal n d) (fixed_decimal n d)

theorem trim_eq (n d : ℕ) : ((trim n d).1 : ℚ) / 10 ^ (trim n d).2 = (n : ℚ) / 10 ^ d := by
  induction d generalizing n with
  | zero => rfl
  | succ d ih =>
      rw [trim]
      split
      · next hn =>
          have hdiv : (n : ℚ) = ((n / 10 : ℕ) : ℚ) * 10 := by
            exact_mod_cast (Nat.div_mul_cancel (Nat.dvd_of_mod_eq_zero hn)).symm
          rw [ih, hdiv, pow_succ, mul_div_mul_right _ _ (by norm_num)]
      · rfl

/-! ## Exponents -/

theorem exponent_exponentText (k : ℤ) : exponent (exponentText k) = some k := by
  have hdigits : natural (if k.natAbs < 10 then '0' :: Nat.toDigits 10 k.natAbs
      else Nat.toDigits 10 k.natAbs) = some k.natAbs := by
    split
    · have hall : ('0' :: Nat.toDigits 10 k.natAbs).all Char.isDigit := by
        rw [List.all_cons, List.all_eq_true.mpr (isDigit_toDigits _)]
        rfl
      rw [natural, if_pos ⟨List.cons_ne_nil _ _, hall⟩, Nat.ofDigitChars_cons]
      exact congrArg some Nat.ofDigitChars_ten_toDigits
    · exact natural_toDigits _
  unfold exponentText
  split
  · rw [exponent, hdigits]
    exact congrArg some (by change -(k.natAbs : ℤ) = k; omega)
  · rw [exponent, hdigits]
    exact congrArg some (by change (k.natAbs : ℤ) = k; omega)

theorem isNumeral_exponentText (k : ℤ) : (exponentText k).all isNumeral := by
  have hdigits : ∀ c ∈ Nat.toDigits 10 k.natAbs, isNumeral c := fun c hc =>
    isNumeral_of_isFixed (by simp [isFixed, isDigit_toDigits _ c hc])
  have hall : (Nat.toDigits 10 k.natAbs).all isNumeral := List.all_eq_true.mpr hdigits
  unfold exponentText
  split <;> split <;> simp [hall, isNumeral]

/-! ## What is printed -/

theorem isNumber_showDigits (n : ℕ) (exp : ℤ) :
    IsNumber (showDigits n exp) ((n : ℚ) * 10 ^ (exp - 5)) := by
  have hten : (10 : ℚ) ≠ 0 := by norm_num
  unfold showDigits
  split
  · next hexp =>
      have h := isNumber_decimal (trim n (5 - exp).toNat).1 (trim n (5 - exp).toNat).2
      have hpow : (n : ℚ) / 10 ^ (5 - exp).toNat = n * 10 ^ (exp - 5) := by
        rw [div_eq_mul_inv, ← zpow_natCast, ← zpow_neg]
        congr 2
        omega
      rwa [trim_eq, hpow] at h
  · have h := isNumber_of_exponent (isFixed_decimal (trim n 5).1 (trim n 5).2)
      (fixed_decimal _ _) (isNumeral_exponentText exp) (exponent_exponentText exp)
    have hpow : (n : ℚ) / 10 ^ 5 * 10 ^ exp = n * 10 ^ (exp - 5) := by
      rw [zpow_sub₀ hten, mul_div_assoc', div_mul_eq_mul_div]
      rfl
    rwa [trim_eq, hpow] at h

/-- **A printed `double` is a number, the one of six digits that is nearest.** -/
theorem isNumber_showGeneral {x : ℚ} (hx : 0 ≤ x) :
    IsNumber (showGeneral x) (significant 10 6 x) := by
  unfold showGeneral
  split
  · next hzero =>
      rw [hzero, significant_zero]
      exact isNumber_toDigits 0
  · next hne =>
      obtain ⟨n, hn⟩ := exists_digits (β := 10) (p := 6) (by decide) (by decide)
        (lt_of_le_of_ne hx (Ne.symm hne))
      have hunit := unit_pos (β := 10) (by decide) 6 (significant 10 6 x)
      have hdigits : ⌊significant 10 6 x / unit 10 6 (significant 10 6 x)⌋.toNat = n := by
        rw [(div_eq_iff hunit.ne').mpr hn, Int.floor_natCast, Int.toNat_natCast]
      have hpow : unit 10 6 (significant 10 6 x) =
          (10 : ℚ) ^ (Int.log 10 (significant 10 6 x) - 5) := by
        rw [unit]
        congr 1
        omega
      have h := isNumber_showDigits n (Int.log 10 (significant 10 6 x))
      rw [← hpow, ← hn, ← hdigits] at h
      exact h

theorem isNumber_showFixed (d : ℕ) {x : ℚ} (hx : 0 ≤ x) :
    IsNumber (showFixed d x) ((roundEven (x * 10 ^ d) : ℚ) / 10 ^ d) := by
  have hround : ((roundEven (x * 10 ^ d)).toNat : ℚ) = roundEven (x * 10 ^ d) := by
    rw [← Int.cast_natCast, Int.toNat_of_nonneg (roundEven_nonneg (by positivity))]
  rw [← hround]
  exact isNumber_decimal _ d

/-! ## How far a printed number is from the one computed -/

theorem rounds_binary64 : Rounds (1 / 2 ^ 53) binary64 := by
  have h := rounds_significant (K := ℚ) (β := 2) (p := 53) (by decide) (by decide)
  exact h.mono_error (by norm_num)

theorem rounds_printed : Rounds (5 / 10 ^ 6) (significant 10 6 : ℚ → ℚ) := by
  have h := rounds_significant (K := ℚ) (β := 10) (p := 6) (by decide) (by decide)
  exact h.mono_error (by norm_num)

end BranchPrediction.Cpp
