import BranchPrediction.Json.Parser
import Mathlib.Data.List.TakeWhile

/-!
# What the parser reads

`Reads p lexeme a` says that `p` takes `a` off any text that starts with
`lexeme`, provided the lexeme is not a number that goes on.  The lemmas below
have one rule for each form of a value, so that a text put together in pieces is
read piece by piece; white space may stand wherever the grammar allows it.
-/

namespace BranchPrediction.Json

/-- A text that no number goes on into. -/
def Ends (rest : List Char) : Prop :=
  ∀ c ∈ rest.head?, isNumeral c = false

theorem ends_nil : Ends [] := by
  simp [Ends]

theorem ends_cons {c : Char} (hc : isNumeral c = false) (rest : List Char) : Ends (c :: rest) := by
  simpa [Ends] using hc

theorem isNumeral_of_isSpace {c : Char} (hc : isSpace c) : isNumeral c = false := by
  simp only [isSpace, Bool.or_eq_true, decide_eq_true_eq] at hc
  rcases hc with ((rfl | rfl) | rfl) | rfl <;> rfl

/-- White space ends a number as well as what follows it does. -/
theorem ends_append {pad rest : List Char} (hpad : pad.all isSpace) (hrest : Ends rest) :
    Ends (pad ++ rest) := by
  cases pad with
  | nil => exact hrest
  | cons c pad =>
      rw [List.all_cons, Bool.and_eq_true] at hpad
      exact ends_cons (isNumeral_of_isSpace hpad.1) _

/-- The first character of a value. -/
def Starts (c : Char) : Prop :=
  isSpace c = false ∧ c ≠ ']' ∧ c ≠ '}'

variable {α : Type} {p : Parser α}

/-- `p` reads `a` off a lexeme. -/
structure Reads (p : Parser α) (lexeme : List Char) (a : α) : Prop where
  starts : ∃ c ∈ lexeme.head?, Starts c
  eq : ∀ rest, Ends rest → p (lexeme ++ rest) = some (a, rest)

/-! ## White space -/

theorem skip_append {pad : List Char} (hpad : pad.all isSpace) (text : List Char) :
    skip (pad ++ text) = skip text := by
  rw [skip, List.dropWhile_append_of_pos (by simpa using hpad)]
  rfl

theorem skip_cons {c : Char} (hc : isSpace c = false) (text : List Char) :
    skip (c :: text) = c :: text :=
  List.dropWhile_cons_of_neg (by simp [hc])

theorem Reads.skip_eq {lexeme : List Char} {a : α} (h : Reads p lexeme a) (rest : List Char) :
    skip (lexeme ++ rest) = lexeme ++ rest := by
  obtain ⟨c, hc, hstarts⟩ := h.starts
  obtain ⟨tail, rfl⟩ := List.head?_eq_some_iff.mp hc
  exact skip_cons hstarts.1 _

/-! ## Numbers -/

theorem number_append {token : List Char} {q : ℚ} (h : IsNumber token q) {rest : List Char}
    (hrest : Ends rest) : number (token ++ rest) = some (q, rest) := by
  have hall : ∀ c ∈ token, isNumeral c := List.all_eq_true.mp h.1
  have htake : rest.takeWhile isNumeral = [] := by
    cases rest with
    | nil => rfl
    | cons c rest => exact List.takeWhile_cons_of_neg (by simp [hrest c rfl])
  have hdrop : rest.dropWhile isNumeral = rest := by
    cases rest with
    | nil => rfl
    | cons c rest => exact List.dropWhile_cons_of_neg (by simp [hrest c rfl])
  rw [number, List.takeWhile_append_of_pos hall, List.dropWhile_append_of_pos hall, htake, hdrop,
    List.append_nil, h.2]
  rfl

theorem reads_number {token : List Char} {q : ℚ} (h : IsNumber token q) (depth : ℕ) :
    Reads (value (depth + 1)) token (.num q) := by
  cases token with
  | nil => exact absurd h.2 nofun
  | cons c token =>
      have hc : isNumeral c = true := List.all_eq_true.mp h.1 c (List.mem_cons_self ..)
      have hne : ∀ c', isNumeral c' = false → c ≠ c' := by
        intro c' hc' heq
        rw [heq, hc'] at hc
        cases hc
      refine ⟨⟨c, rfl, ?_, hne _ rfl, hne _ rfl⟩, ?_⟩
      · by_contra hspace
        rw [isNumeral_of_isSpace (by simpa using hspace)] at hc
        cases hc
      · intro rest hrest
        simp only [value]
        split
        case h_7 =>
          rw [number_append h hrest]
          rfl
        all_goals
          next heq => exact absurd (List.cons.inj heq).1 (hne _ rfl)

theorem cut_of_forall {p : Char → Bool} {token : List Char} (h : ∀ c ∈ token, p c = false) :
    cut p token = (token, none) := by
  have hdrop : token.dropWhile (fun c => !p c) = [] := by
    rw [List.dropWhile_eq_nil_iff]
    exact fun c hc => by simp [h c hc]
  rw [cut, hdrop]

/-- Digits denote what they are read as, as long as they have no leading zero. -/
theorem isNumber_of_digits {token : List Char} {n : ℕ} (hdigits : token.all Char.isDigit)
    (h : integer token = some n) : IsNumber token n := by
  have hdigit : ∀ c ∈ token, c.isDigit := List.all_eq_true.mp hdigits
  have hne : ∀ c ∈ token, ∀ c', c'.isDigit = false → c ≠ c' := by
    intro c hc c' hc' heq
    have := hdigit c hc
    rw [heq, hc'] at this
    cases this
  refine ⟨List.all_eq_true.mpr fun c hc => by simp [isNumeral, hdigit c hc], ?_⟩
  have hfixed : fixed token = some (n : ℚ) := by
    rw [fixed, cut_of_forall fun c hc => decide_eq_false (hne c hc '.' rfl)]
    simp [h]
  have hunsigned : unsigned token = some (n : ℚ) := by
    rw [unsigned, cut_of_forall fun c hc => by simp [hne c hc 'e' rfl, hne c hc 'E' rfl]]
    exact hfixed
  unfold numeral
  split
  · exact absurd rfl (hne '-' (List.mem_cons_self ..) '-' rfl)
  · exact hunsigned

/-- Decimal digits have no leading zero. -/
theorem head?_toDigits {n : ℕ} (hn : 0 < n) : (Nat.toDigits 10 n).head? ≠ some '0' := by
  induction n using Nat.strong_induction_on with
  | _ n ih =>
      rw [Nat.toDigits_eq_if (by decide)]
      split
      · simp [hn.ne']
      · rw [List.head?_append, Option.or_of_isSome (by simp [List.isSome_head?])]
        exact ih (n / 10) (by omega) (by omega)

/-- The decimal digits of a number denote that number. -/
theorem isNumber_toDigits (n : ℕ) : IsNumber (Nat.toDigits 10 n) n := by
  have hdigits : (Nat.toDigits 10 n).all Char.isDigit := by
    rw [List.all_eq_true]
    exact fun c hc => Nat.isDigit_of_mem_toDigits (by decide) (by decide) hc
  have hzero : ¬ ((Nat.toDigits 10 n).head? = some '0' ∧ Nat.toDigits 10 n ≠ ['0']) := by
    rintro ⟨hhead, hne⟩
    rcases Nat.eq_zero_or_pos n with rfl | hn
    · exact hne (Nat.toDigits_zero 10)
    · exact head?_toDigits hn hhead
  apply isNumber_of_digits hdigits
  rw [integer, if_neg hzero, natural, if_pos ⟨Nat.toDigits_ne_nil, hdigits⟩,
    Nat.ofDigitChars_ten_toDigits]

/-! ## Strings -/

/-- A character that a string holds as it is. -/
def isPlain (c : Char) : Bool :=
  ' ' ≤ c && c ≠ '"' && c ≠ '\\'

theorem characters_append {s : List Char} (hs : s.all isPlain) (rest : List Char) :
    characters (s ++ '"' :: rest) = some (s, rest) := by
  induction s with
  | nil => rfl
  | cons c s ih =>
      rw [List.all_cons, Bool.and_eq_true] at hs
      obtain ⟨hc, hs⟩ := hs
      simp only [isPlain, Bool.and_eq_true, decide_eq_true_eq] at hc
      obtain ⟨⟨hspace, hquote⟩, hslash⟩ := hc
      rw [List.cons_append, characters, if_neg (Char.not_lt.mpr hspace), ih hs]
      · rfl
      · exact hquote
      · exact fun h _ => hslash h
      · exact fun _ _ h _ => hslash h

theorem string_append {s : String} (hs : s.toList.all isPlain) (rest : List Char) :
    string (s.toList ++ '"' :: rest) = some (s, rest) := by
  rw [string, characters_append hs]
  exact congrArg (fun s => some (s, rest)) String.ofList_toList

theorem reads_string {s : String} (hs : s.toList.all isPlain) (depth : ℕ) :
    Reads (value (depth + 1)) ('"' :: (s.toList ++ ['"'])) (.str s) := by
  refine ⟨⟨'"', rfl, rfl, by decide, by decide⟩, ?_⟩
  intro rest _
  have h := string_append hs rest
  rw [List.cons_append, List.append_assoc]
  exact congrArg (Option.map _) h

/-! ## Arrays and objects -/

theorem reads_member (key pad : String) {lexeme : List Char} {a : α} (h : Reads p lexeme a)
    (hkey : key.toList.all isPlain := by decide) (hpad : pad.toList.all isSpace := by decide) :
    Reads (member p) ('"' :: (key.toList ++ '"' :: ':' :: (pad.toList ++ lexeme))) (key, a) := by
  refine ⟨⟨'"', rfl, rfl, by decide, by decide⟩, ?_⟩
  intro rest hrest
  have hstring := string_append hkey (':' :: (pad.toList ++ (lexeme ++ rest)))
  simp only [List.cons_append, List.append_assoc, member, hstring, Option.bind_eq_bind,
    Option.bind_some, skip_cons (c := ':') rfl, skip_append hpad, h.skip_eq, h.eq rest hrest]

/-- Items with commas between them, up to the closing bracket. -/
inductive Items (p : Parser α) (close : Char) : List Char → List α → Prop where
  | last (pad : String) {lexeme : List Char} {a : α} (h : Reads p lexeme a) (pad' : String)
      (hpad : pad.toList.all isSpace := by decide) (hpad' : pad'.toList.all isSpace := by decide) :
      Items p close (pad.toList ++ (lexeme ++ (pad'.toList ++ [close]))) [a]
  | cons (pad : String) {lexeme : List Char} {a : α} (h : Reads p lexeme a) (pad' : String)
      {text : List Char} {as : List α} (htext : Items p close text as)
      (hpad : pad.toList.all isSpace := by decide) (hpad' : pad'.toList.all isSpace := by decide) :
      Items p close (pad.toList ++ (lexeme ++ (pad'.toList ++ ',' :: text))) (a :: as)

/-- A character that closes a bracket. -/
def Closes (close : Char) : Prop :=
  isSpace close = false ∧ isNumeral close = false ∧ close ≠ ',' ∧ ¬ Starts close

section

variable {close : Char} {text : List Char} {as : List α} (h : Items p close text as)
include h

theorem Items.length_le : as.length ≤ text.length := by
  induction h with
  | last =>
      simp only [List.length_append, List.length_cons, List.length_nil]
      omega
  | cons _ _ _ _ _ _ ih =>
      simp only [List.length_append, List.length_cons]
      omega

theorem Items.items_eq (hclose : Closes close) {fuel : ℕ} (hfuel : as.length ≤ fuel)
    (rest : List Char) : items p close fuel (text ++ rest) = some (as, rest) := by
  obtain ⟨hspace, hnumeral, hcomma, -⟩ := hclose
  induction h generalizing fuel with
  | last _ h _ hpad hpad' =>
      obtain ⟨fuel, rfl⟩ := Nat.exists_eq_succ_of_ne_zero (Nat.ne_of_gt hfuel)
      have heq := h.eq _ (ends_append hpad' (ends_cons hnumeral rest))
      simp [items, skip_append, hpad, hpad', h.skip_eq, heq, skip_cons hspace]
  | @cons _ _ _ h _ text as htext hpad hpad' ih =>
      obtain ⟨fuel, rfl⟩ := Nat.exists_eq_succ_of_ne_zero
        (Nat.ne_of_gt ((Nat.succ_pos _).trans_le hfuel))
      have heq := h.eq _ (ends_append hpad' (ends_cons (c := ',') rfl (text ++ rest)))
      have hrest := ih (Nat.le_of_succ_le_succ hfuel)
      simp [items, skip_append, hpad, hpad', h.skip_eq, heq, skip_cons (c := ',') rfl, hrest,
        hcomma.symm]

theorem Items.head?_skip (hclose : Closes close) (rest : List Char) :
    (skip (text ++ rest)).head? ≠ some close := by
  have hstart : ∀ {lexeme : List Char} {a : α}, Reads p lexeme a → ∀ tail,
      (lexeme ++ tail).head? ≠ some close := fun {lexeme _} h tail heq => by
    obtain ⟨c, hc, hstarts⟩ := h.starts
    obtain ⟨lexeme, rfl⟩ := List.head?_eq_some_iff.mp hc
    rw [List.cons_append, List.head?_cons, Option.some.injEq] at heq
    exact hclose.2.2.2 (heq ▸ hstarts)
  cases h with
  | last _ h _ hpad hpad' =>
      rw [List.append_assoc, skip_append hpad, List.append_assoc, h.skip_eq]
      exact hstart h _
  | cons _ h _ htext hpad hpad' =>
      rw [List.append_assoc, skip_append hpad, List.append_assoc, h.skip_eq]
      exact hstart h _

/-- A bracket with items. -/
theorem Items.bracket_eq (hclose : Closes close) (rest : List Char) :
    bracket p close (text ++ rest) = some (as, rest) := by
  rw [bracket, if_neg (h.head?_skip hclose rest)]
  apply h.items_eq hclose
  exact h.length_le.trans (by simp)

end

/-- A bracket without items. -/
theorem bracket_empty {close : Char} (hclose : Closes close) {pad : List Char}
    (hpad : pad.all isSpace) (rest : List Char) :
    bracket p close (pad ++ close :: rest) = some ([], rest) := by
  rw [bracket, skip_append hpad, skip_cons hclose.1, List.head?_cons, if_pos rfl, List.tail_cons]

theorem closes_arr : Closes ']' :=
  ⟨rfl, rfl, by decide, fun h => h.2.1 rfl⟩

theorem closes_obj : Closes '}' :=
  ⟨rfl, rfl, by decide, fun h => h.2.2 rfl⟩

theorem reads_obj {depth : ℕ} {text : List Char} {members : List (String × Value)}
    (h : Items (member (value depth)) '}' text members) :
    Reads (value (depth + 1)) ('{' :: text) (.obj members) :=
  ⟨⟨'{', rfl, rfl, by decide, by decide⟩, fun rest _ =>
    congrArg (Option.map _) (h.bracket_eq closes_obj rest)⟩

theorem reads_arr {depth : ℕ} {text : List Char} {as : List Value}
    (h : Items (value depth) ']' text as) :
    Reads (value (depth + 1)) ('[' :: text) (.arr as) :=
  ⟨⟨'[', rfl, rfl, by decide, by decide⟩, fun rest _ =>
    congrArg (Option.map _) (h.bracket_eq closes_arr rest)⟩

theorem reads_arr_empty (pad : String) (depth : ℕ)
    (hpad : pad.toList.all isSpace := by decide) :
    Reads (value (depth + 1)) ('[' :: (pad.toList ++ [']'])) (.arr []) := by
  refine ⟨⟨'[', rfl, rfl, by decide, by decide⟩, ?_⟩
  intro rest _
  rw [List.cons_append, List.append_assoc]
  exact congrArg (Option.map _) (bracket_empty closes_arr hpad rest)

/-! ## Texts -/

/-- A text that is one value is parsed as that value. -/
theorem parse_of_reads {text : List Char} {v : Value} {depth : ℕ} (hdepth : depth ≤ text.length)
    (h : ∀ n, Reads (value (n + depth)) text v) : parse text = some v := by
  have hread := (h (text.length - depth)).eq [] ends_nil
  have hskip := (h 0).skip_eq []
  rw [Nat.sub_add_cancel hdepth, List.append_nil] at hread
  rw [List.append_nil] at hskip
  rw [parse, hskip, hread]
  rfl

end BranchPrediction.Json
