import Mathlib.Algebra.Field.Rat

/-!
# A parser of JSON texts

Texts are lists of characters.  A `Parser` takes a value off the front of a text
and leaves the rest; `parse` reads a whole text, so it is defined exactly on the
texts that are one well-formed value, with white space around it.

A number is read as the rational it denotes.  `\u` escapes are refused, so what
is accepted here is accepted by every JSON parser, and read the same.
-/

namespace BranchPrediction.Json

/-- A JSON value.  An object keeps the order of its members. -/
inductive Value where
  | null
  | bool (b : Bool)
  | num (q : ℚ)
  | str (s : String)
  | arr (items : List Value)
  | obj (members : List (String × Value))

namespace Value

/-- A member of an object, the last one of its name. -/
def get? (key : String) : Value → Option Value
  | obj members => members.reverse.lookup key
  | _ => none

/-- A member of a member. -/
def at? (v : Value) (path : List String) : Option Value :=
  path.foldlM (fun v key => v.get? key) v

end Value

/-- A reader of the front of a text. -/
abbrev Parser (α : Type) := List Char → Option (α × List Char)

def isSpace (c : Char) : Bool :=
  c = ' ' || c = '\n' || c = '\r' || c = '\t'

/-- A text without its leading white space. -/
def skip (text : List Char) : List Char :=
  text.dropWhile isSpace

/-! ## Numbers -/

/-- The characters of numbers. -/
def isNumeral (c : Char) : Bool :=
  c.isDigit || c = '-' || c = '+' || c = '.' || c = 'e' || c = 'E'

/-- One or more digits. -/
def natural (token : List Char) : Option ℕ :=
  if token ≠ [] ∧ token.all Char.isDigit then some (Nat.ofDigitChars 10 token 0) else none

/-- Digits without a leading zero. -/
def integer (token : List Char) : Option ℕ :=
  if token.head? = some '0' ∧ token ≠ ['0'] then none else natural token

/-- What precedes the first character of a kind, and what follows it, if there
is such a character. -/
def cut (p : Char → Bool) (token : List Char) : List Char × Option (List Char) :=
  match token.dropWhile fun c => !p c with
  | [] => (token, none)
  | _ :: rest => (token.takeWhile fun c => !p c, some rest)

/-- An integer and, after a point, a fraction. -/
def fixed (token : List Char) : Option ℚ :=
  match cut (· = '.') token with
  | (int, none) => (integer int).map fun n => (n : ℚ)
  | (int, some frac) => do
      let n ← integer int
      let m ← natural frac
      some (n + m / 10 ^ frac.length)

/-- What follows the letter of an exponent. -/
def exponent : List Char → Option ℤ
  | '-' :: token => (natural token).map fun n => -(n : ℤ)
  | '+' :: token => (natural token).map fun n => (n : ℤ)
  | token => (natural token).map fun n => (n : ℤ)

/-- A number without a sign. -/
def unsigned (token : List Char) : Option ℚ :=
  match cut (fun c => c = 'e' || c = 'E') token with
  | (mantissa, none) => fixed mantissa
  | (mantissa, some exp) => do
      let q ← fixed mantissa
      let k ← exponent exp
      some (q * 10 ^ k)

/-- A whole token as a number. -/
def numeral : List Char → Option ℚ
  | '-' :: token => (unsigned token).map fun q => -q
  | token => unsigned token

/-- A token that is a number, and the number it is. -/
def IsNumber (token : List Char) (q : ℚ) : Prop :=
  token.all isNumeral ∧ numeral token = some q

/-- The token at the front, which ends where no character of a number stands. -/
def number : Parser ℚ := fun text =>
  (numeral (text.takeWhile isNumeral)).map fun q => (q, text.dropWhile isNumeral)

/-! ## Strings -/

/-- What a character stands for after a backslash. -/
def escape : Char → Option Char
  | '"' => some '"'
  | '\\' => some '\\'
  | '/' => some '/'
  | 'b' => some '\x08'
  | 'f' => some '\x0c'
  | 'n' => some '\n'
  | 'r' => some '\r'
  | 't' => some '\t'
  | _ => none

/-- The characters up to the closing quotation mark. -/
def characters : Parser (List Char)
  | [] => none
  | '"' :: rest => some ([], rest)
  | ['\\'] => none
  | '\\' :: c :: rest => do
      let c ← escape c
      let (s, rest) ← characters rest
      some (c :: s, rest)
  | c :: rest =>
      if c < ' ' then none else do
        let (s, rest) ← characters rest
        some (c :: s, rest)

/-- A string, after its opening quotation mark. -/
def string : Parser String := fun text =>
  (characters text).map fun (s, rest) => (.ofList s, rest)

/-! ## Values -/

variable {α : Type}

/-- One or more items, up to the closing bracket. -/
def items (p : Parser α) (close : Char) : ℕ → Parser (List α)
  | 0 => fun _ => none
  | fuel + 1 => fun text => do
      let (a, rest) ← p (skip text)
      match skip rest with
      | [] => none
      | c :: rest =>
          if c = close then some ([a], rest)
          else if c = ',' then do
            let (as, rest) ← items p close fuel rest
            some (a :: as, rest)
          else none

/-- The items of a bracket, after the opening one. -/
def bracket (p : Parser α) (close : Char) : Parser (List α) := fun text =>
  if (skip text).head? = some close then some ([], (skip text).tail)
  else items p close text.length text

/-- A member of an object. -/
def member (p : Parser α) : Parser (String × α)
  | '"' :: text => do
      let (key, rest) ← string text
      match skip rest with
      | ':' :: rest => do
          let (a, rest) ← p (skip rest)
          some ((key, a), rest)
      | _ => none
  | _ => none

/-- A fixed word. -/
def keyword (word : String) (a : α) : Parser α := fun text =>
  if word.toList.isPrefixOf text then some (a, text.drop word.length) else none

/-- A value of at most the given depth. -/
def value : ℕ → Parser Value
  | 0 => fun _ => none
  | depth + 1 => fun text =>
    match text with
    | '"' :: rest => (string rest).map fun (s, rest) => (.str s, rest)
    | '[' :: rest => (bracket (value depth) ']' rest).map fun (as, rest) => (.arr as, rest)
    | '{' :: rest => (bracket (member (value depth)) '}' rest).map fun (as, rest) => (.obj as, rest)
    | 'n' :: _ => keyword "null" .null text
    | 't' :: _ => keyword "true" (.bool true) text
    | 'f' :: _ => keyword "false" (.bool false) text
    | _ => (number text).map fun (q, rest) => (.num q, rest)

/-- A whole text. -/
def parse (text : List Char) : Option Value :=
  match value text.length (skip text) with
  | some (v, rest) => if skip rest = [] then some v else none
  | none => none

end BranchPrediction.Json
