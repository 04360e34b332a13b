import BranchPrediction.Cpp.Format
import BranchPrediction.Cpp.Ostream

/-!
# Text for people, line by line

The operations a program needs to write a report to `std::cout`, and what a
reader of the report does with it: cut it into lines, find a section by its
title, and pick out the fields that carry a label.

A report written with `std::endl` after each line is read back as those lines
(`lines_unlines`), whatever else is in them.
-/

namespace BranchPrediction.Cpp

open Json

namespace Ostream

/-- `<< std::endl`. -/
def endl (out : Ostream) : Ostream :=
  out.str "\n"

/-- `<< c`, for a `char`. -/
def char (out : Ostream) (c : Char) : Ostream :=
  { out with text := out.text ++ [c] }

/-- `<< std::fixed << std::setprecision(d) << x`. -/
def fixed (d : ℕ) (out : Ostream) (x : ℚ) : Ostream :=
  { out with text := out.text ++ showFixed d x }

section

variable (out : Ostream)

@[simp] theorem text_endl : out.endl.text = out.text ++ ['\n'] := rfl

@[simp] theorem base_endl : out.endl.base = out.base := rfl

@[simp] theorem text_char (c : Char) : (out.char c).text = out.text ++ [c] := rfl

@[simp] theorem base_char (c : Char) : (out.char c).base = out.base := rfl

@[simp] theorem text_fixed (d : ℕ) (x : ℚ) :
    (out.fixed d x).text = out.text ++ showFixed d x := rfl

@[simp] theorem base_fixed (d : ℕ) (x : ℚ) : (out.fixed d x).base = out.base := rfl

/-- A loop over characters. -/
@[simp] theorem foldl_char (cs : List Char) :
    cs.foldl char out = { out with text := out.text ++ cs } := by
  induction cs generalizing out with
  | nil => rw [List.foldl_nil, List.append_nil]
  | cons c cs ih =>
      rw [List.foldl_cons, ih, text_char, List.append_assoc]
      rfl

end

end Ostream

/-! ## Lines -/

/-- Lines, each with its end. -/
def unlines (ls : List (List Char)) : List Char :=
  ls.flatMap fun l => l ++ ['\n']

/-- A text, cut at the ends of its lines. -/
def lines (text : List Char) : List (List Char) :=
  text.splitOn '\n'

@[simp] theorem unlines_nil : unlines [] = [] := rfl

@[simp] theorem unlines_cons (l : List Char) (ls : List (List Char)) :
    unlines (l :: ls) = l ++ '\n' :: unlines ls := by
  simp [unlines]

@[simp] theorem unlines_append (ls ls' : List (List Char)) :
    unlines (ls ++ ls') = unlines ls ++ unlines ls' :=
  List.flatMap_append

/-- Lines are read back as they were, with an empty one after the last end. -/
theorem lines_unlines {ls : List (List Char)} (h : ∀ l ∈ ls, '\n' ∉ l) :
    lines (unlines ls) = ls ++ [[]] := by
  induction ls with
  | nil => rfl
  | cons l ls ih =>
      have hl := h l (List.mem_cons_self ..)
      rw [unlines_cons, lines, List.splitOn_append_cons_self_of_not_mem hl, ← lines,
        ih fun l' hl' => h l' (List.mem_cons_of_mem _ hl'), List.cons_append]

theorem mem_of_mem_intercalate {x c : Char} {words : List (List Char)}
    (h : c ∈ [x].intercalate words) : c = x ∨ ∃ word ∈ words, c ∈ word := by
  induction words with
  | nil => cases h
  | cons word words ih =>
      cases words with
      | nil => exact Or.inr ⟨word, List.mem_cons_self .., by simpa [List.intercalate] using h⟩
      | cons word' words =>
          rw [List.intercalate_cons_cons, List.mem_append, List.mem_append,
            List.mem_singleton] at h
          rcases h with (h | h) | h
          · exact Or.inr ⟨word, List.mem_cons_self .., h⟩
          · exact Or.inl h
          · exact (ih h).imp_right fun ⟨word'', hmem, hc⟩ =>
              ⟨word'', List.mem_cons_of_mem _ hmem, hc⟩

/-- The lines from after the title up to the next empty one. -/
def paragraph (isTitle : List Char → Bool) (ls : List (List Char)) : List (List Char) :=
  (ls.dropWhile fun l => !isTitle l).tail.takeWhile fun l => !l.isEmpty

theorem paragraph_eq {isTitle : List Char → Bool} {before : List (List Char)}
    (hbefore : ∀ l ∈ before, isTitle l = false) {title : List Char} (htitle : isTitle title)
    {body : List (List Char)} (hbody : ∀ l ∈ body, l ≠ []) (after : List (List Char)) :
    paragraph isTitle (before ++ title :: (body ++ [] :: after)) = body := by
  have hskipped : ∀ l ∈ before, (fun l => !isTitle l) l = true := by
    intro l hl
    exact congrArg not (hbefore l hl)
  have hkept : ∀ l ∈ body, (fun l : List Char => !l.isEmpty) l = true := by
    intro l hl
    exact congrArg not (List.isEmpty_eq_false_iff.mpr (hbody l hl))
  rw [paragraph, List.dropWhile_append_of_pos hskipped,
    List.dropWhile_cons_of_neg (by rw [htitle]; decide), List.tail_cons,
    List.takeWhile_append_of_pos hkept, List.takeWhile_cons_of_neg (by decide), List.append_nil]

/-- What follows the label in the lines that start with it. -/
def fields (label : String) (ls : List (List Char)) : List (List Char) :=
  ls.filterMap fun l => label.toList.isPrefixOf? l

/-! ## Reports

A report is known up to what is filled into its lines.  Which lines carry a label
then is a matter of their fixed texts alone, and can be computed. -/

/-- Two texts part before either ends. -/
def Part (a b : List Char) : Prop :=
  ∃ p ∈ a.zip b, p.1 ≠ p.2

instance (a b : List Char) : Decidable (Part a b) :=
  inferInstanceAs (Decidable (∃ p ∈ a.zip b, p.1 ≠ p.2))

theorem isPrefixOf?_of_part {a b : List Char} (h : Part a b) (rest : List Char) :
    a.isPrefixOf? (b ++ rest) = none := by
  obtain ⟨p, hp, hne⟩ := h
  induction a generalizing b with
  | nil => simp at hp
  | cons c a ih =>
      cases b with
      | nil => simp at hp
      | cons c' b =>
          rw [List.cons_append, List.isPrefixOf?]
          split
          · next heq =>
              rw [List.zip_cons_cons, List.mem_cons] at hp
              rcases hp with rfl | hp
              · exact absurd (beq_iff_eq.mp heq) hne
              · exact ih hp
          · rfl

theorem isPrefixOf?_append (a rest : List Char) : a.isPrefixOf? (a ++ rest) = some rest := by
  induction a with
  | nil => rfl
  | cons c a ih => rw [List.cons_append, List.isPrefixOf?, if_pos (beq_self_eq_true c), ih]

/-- A line of a report: a fixed text, and what is filled in after it. -/
structure Row where
  text : String
  fill : Option (List Char) := none

namespace Row

/-- An empty line. -/
abbrev blank : Row where
  text := ""

/-- The line. -/
def line (r : Row) : List Char :=
  r.text.toList ++ r.fill.getD []

/-- What is known of a line before it is filled in. -/
def shape (r : Row) : String × Bool :=
  (r.text, r.fill.isSome)

/-- The label is the fixed text of a line, or the line does not start with it
whatever is filled in. -/
def Clear (label : String) (s : String × Bool) : Prop :=
  s.1 = label ∨ Part label.toList s.1.toList ∨
    s.2 = false ∧ label.toList.isPrefixOf? s.1.toList = none

instance (label : String) (s : String × Bool) : Decidable (Clear label s) :=
  inferInstanceAs (Decidable (_ ∨ _ ∨ _))

theorem isPrefixOf?_line {label : String} {r : Row} (h : Clear label r.shape) :
    label.toList.isPrefixOf? r.line = if r.text = label then some (r.fill.getD []) else none := by
  split
  · next heq => rw [line, heq, isPrefixOf?_append]
  · next hne =>
      rcases h with heq | hpart | ⟨hempty, hnone⟩
      · exact absurd heq hne
      · exact isPrefixOf?_of_part hpart _
      · rw [line, Option.not_isSome_iff_eq_none.mp (ne_true_of_eq_false hempty), Option.getD_none,
          List.append_nil]
        exact hnone

end Row

/-- What is filled in after a label. -/
def filled (label : String) (rows : List Row) : List (List Char) :=
  (rows.filter fun r => r.text = label).map fun r => r.fill.getD []

theorem fields_rows {label : String} {rows : List Row}
    (h : ∀ s ∈ rows.map Row.shape, Row.Clear label s) :
    fields label (rows.map Row.line) = filled label rows := by
  induction rows with
  | nil => rfl
  | cons r rows ih =>
      rw [List.map_cons, List.forall_mem_cons] at h
      have hr := Row.isPrefixOf?_line h.1
      have hrest := ih h.2
      rw [fields, filled] at hrest ⊢
      rw [List.map_cons, List.filterMap_cons, List.filter_cons, hr, hrest]
      by_cases heq : r.text = label
      · simp [heq]
      · simp [heq]

/-- The section of a title in a report that has no such line before it. -/
theorem paragraph_rows {title : String} {before : List Row}
    (hbefore : ∀ s ∈ before.map Row.shape, Row.Clear title s ∧ s.1 ≠ title) {body : List Row}
    (hbody : ∀ r ∈ body, r.line ≠ []) (after : List Row) :
    paragraph (fun l => l = title.toList)
      ((before ++ { text := title } :: (body ++ Row.blank :: after)).map Row.line) =
      body.map Row.line := by
  have hblank : Row.blank.line = [] := rfl
  have htitle : Row.line { text := title } = title.toList := List.append_nil _
  rw [List.map_append, List.map_cons, List.map_append, List.map_cons, hblank, htitle]
  apply paragraph_eq
  · intro l hl
    obtain ⟨r, hr, rfl⟩ := List.mem_map.mp hl
    obtain ⟨hclear, hne⟩ := hbefore r.shape (List.mem_map_of_mem hr)
    have hprefix := (Row.isPrefixOf?_line hclear).trans (if_neg hne)
    have hself := isPrefixOf?_append title.toList []
    rw [List.append_nil] at hself
    apply decide_eq_false
    intro heq
    rw [heq, hself] at hprefix
    cases hprefix
  · exact decide_eq_true rfl
  · intro l hl
    obtain ⟨r, hr, rfl⟩ := List.mem_map.mp hl
    exact hbody r hr

/-- Items that are read back one by one are read back together. -/
theorem mapM_map_of_inverse {α β : Type} {write : α → β} {read : β → Option α}
    (h : ∀ a, read (write a) = some a) (as : List α) : (as.map write).mapM read = some as := by
  induction as with
  | nil => rfl
  | cons a as ih =>
      rw [List.map_cons, List.mapM_cons, h, ih]
      rfl

/-! ## Digits -/

/-- A character that is no digit does not stand in a number. -/
theorem not_mem_toDigits {b : ℕ} (hb : 1 < b) (hb' : b ≤ 16) {c : Char}
    (hc : ∀ d < 16, Nat.digitChar d ≠ c) (n : ℕ) : c ∉ Nat.toDigits b n := by
  intro hmem
  obtain ⟨d, hd, heq⟩ := exists_digit_of_mem_toDigits hb hmem
  exact hc d (hd.trans_le hb') heq.symm

theorem not_mem_showFixed {c : Char} (hc : isFixed c = false) (d : ℕ) (x : ℚ) :
    c ∉ showFixed d x := by
  intro hmem
  rw [isFixed_decimal _ _ c hmem] at hc
  cases hc

/-- The digits of hexadecimal numbers, as they are written. -/
def isHexDigit (c : Char) : Bool :=
  c.isDigit || c ∈ "abcdef".toList

theorem isHexDigit_toDigits (n : ℕ) : (Nat.toDigits 16 n).all isHexDigit := by
  have hdigit : ∀ d < 16, isHexDigit (Nat.digitChar d) := by decide
  apply List.all_eq_true.mpr
  intro c hc
  obtain ⟨d, hd, rfl⟩ := exists_digit_of_mem_toDigits (by decide) hc
  exact hdigit d hd

end BranchPrediction.Cpp
