import Mathlib.Algebra.Field.Rat
import Mathlib.Tactic.IntervalCases

/-!
# `std::ostream`

A stream is the text written so far and the base its integers are written in.
The manipulators `std::hex` and `std::dec` set the base for everything that
follows, not for one field, which is why the base is part of the state.

How a `double` is rounded and printed is the library's; the functions that write
one take its printer as an argument.
-/

namespace BranchPrediction.Cpp

/-- The bases a stream writes integers in. -/
inductive Base where
  | dec
  | hex
deriving DecidableEq

/-- The radix of a base. -/
def Base.radix : Base → ℕ
  | .dec => 10
  | .hex => 16

/-- A `double`: the number it stands for, and nothing where it is not finite. -/
abbrev Double := Option ℚ

/-- `x / y` on doubles, whose value on a zero divisor is not finite. -/
def Double.div (x y : ℚ) : Double :=
  if y = 0 then none else some (x / y)

/-- A stream of characters. -/
structure Ostream where
  text : List Char := []
  base : Base := .dec

namespace Ostream

/-- `<< s`. -/
def str (out : Ostream) (s : String) : Ostream :=
  { out with text := out.text ++ s.toList }

/-- `<< std::hex`. -/
def hex (out : Ostream) : Ostream :=
  { out with base := .hex }

/-- `<< std::dec`. -/
def dec (out : Ostream) : Ostream :=
  { out with base := .dec }

/-- `<< n`, for an unsigned integer. -/
def uint (out : Ostream) (n : ℕ) : Ostream :=
  { out with text := out.text ++ Nat.toDigits out.base.radix n }

/-- `<< n`, for an `int`: signed in decimal, its bits in hexadecimal. -/
def int (out : Ostream) (n : Int32) : Ostream :=
  match out.base with
  | .dec =>
      if n < 0 then (out.str "-").uint n.toInt.natAbs else out.uint n.toInt.natAbs
  | .hex => out.uint n.toUInt32.toNat

/-- `<< x`, for a `double`. -/
def double (showDouble : Double → List Char) (out : Ostream) (x : Double) : Ostream :=
  { out with text := out.text ++ showDouble x }

section

variable (out : Ostream)

@[simp] theorem text_str (s : String) : (out.str s).text = out.text ++ s.toList := rfl

@[simp] theorem base_str (s : String) : (out.str s).base = out.base := rfl

@[simp] theorem text_hex : out.hex.text = out.text := rfl

@[simp] theorem base_hex : out.hex.base = .hex := rfl

@[simp] theorem text_dec : out.dec.text = out.text := rfl

@[simp] theorem base_dec : out.dec.base = .dec := rfl

@[simp] theorem text_uint (n : ℕ) :
    (out.uint n).text = out.text ++ Nat.toDigits out.base.radix n := rfl

@[simp] theorem base_uint (n : ℕ) : (out.uint n).base = out.base := rfl

@[simp] theorem text_double (showDouble : Double → List Char) (x : Double) :
    (out.double showDouble x).text = out.text ++ showDouble x := rfl

@[simp] theorem base_double (showDouble : Double → List Char) (x : Double) :
    (out.double showDouble x).base = out.base := rfl

/-- An `int` that is not negative is written in decimal by its digits. -/
theorem text_int {n : Int32} (hbase : out.base = .dec) (hn : 0 ≤ n.toInt) :
    (out.int n).text = out.text ++ Nat.toDigits 10 n.toInt.natAbs := by
  have hneg : ¬ n < 0 := by
    rw [Int32.lt_iff_toInt_lt]
    exact not_lt.mpr hn
  rw [int, hbase, if_neg hneg, text_uint, hbase]
  rfl

end

end Ostream

/-! ## Hexadecimal digits -/

/-- The characters of a number in a base are digits of that base. -/
theorem exists_digit_of_mem_toDigits {b n : ℕ} (hb : 1 < b) {c : Char}
    (hc : c ∈ Nat.toDigits b n) : ∃ d < b, c = Nat.digitChar d := by
  induction n using Nat.strong_induction_on with
  | _ n ih =>
      rw [Nat.toDigits_eq_if hb] at hc
      split at hc
      · next hn => exact ⟨n, hn, List.mem_singleton.mp hc⟩
      · next hn =>
          rcases List.mem_append.mp hc with hc | hc
          · exact ih (n / b) (Nat.div_lt_self (by omega) hb) hc
          · exact ⟨n % b, Nat.mod_lt _ (by omega), List.mem_singleton.mp hc⟩

/-- The number a hexadecimal digit stands for. -/
def hexDigit (c : Char) : ℕ :=
  if c.isDigit then c.toNat - '0'.toNat else c.toNat - 'a'.toNat + 10

/-- The number hexadecimal digits stand for. -/
def readHex (digits : List Char) : ℕ :=
  digits.foldl (fun n c => 16 * n + hexDigit c) 0

theorem hexDigit_digitChar {d : ℕ} (hd : d < 16) : hexDigit (Nat.digitChar d) = d := by
  interval_cases d <;> rfl

/-- Hexadecimal digits are read back as the number they were written for. -/
theorem readHex_toDigits (n : ℕ) : readHex (Nat.toDigits 16 n) = n := by
  induction n using Nat.strong_induction_on with
  | _ n ih =>
      rw [Nat.toDigits_eq_if (by decide)]
      split
      · next hn => exact (Nat.zero_add _).trans (hexDigit_digitChar hn)
      · next hn =>
          have hrest := ih (n / 16) (by omega)
          rw [readHex] at hrest
          rw [readHex, List.foldl_append, hrest, List.foldl_cons, List.foldl_nil,
            hexDigit_digitChar (Nat.mod_lt _ (by decide)), Nat.div_add_mod]

end BranchPrediction.Cpp
