import Mathlib
import StackAsm.Token
import StackAsm.Proofs.Lines

/-!
The classes of words as patterns over characters. Each class that the scanner knows is told by its
pattern alone, and no word has two of the patterns.
-/

namespace StackAsm

open Computability

namespace Pattern

/-- The character is in one of the ranges. -/
def Within (ranges : List (Char × Char)) (c : Char) : Prop :=
  ∃ range ∈ ranges, range.1 ≤ c ∧ c ≤ range.2

/-- A single character of some ranges. -/
def oneOf (ranges : List (Char × Char)) : Language Char :=
  {word | ∃ c, Within ranges c ∧ word = [c]}

/-- A word of the pattern, or nothing. -/
def atMostOne (pattern : Language Char) : Language Char :=
  1 + pattern

/-- Words of the pattern in a row, at least one. -/
def row (pattern : Language Char) : Language Char :=
  pattern * pattern∗

/-- A decimal digit. -/
def digit : Language Char :=
  oneOf [('0', '9')]

/-- A sign of either kind. -/
def sign : Language Char :=
  oneOf [('+', '+'), ('-', '-')]

/-- Digits with at most one point among, before or behind them. -/
def mantissa : Language Char :=
  row digit * atMostOne (oneOf [('.', '.')] * digit∗) + oneOf [('.', '.')] * row digit

def powerOfTen : Language Char :=
  oneOf [('e', 'e'), ('E', 'E')] * (atMostOne sign * row digit)

/-- What the names of sections and routines look like. -/
def label : Language Char :=
  oneOf [('A', 'Z'), ('a', 'z'), ('_', '_')] *
    (oneOf [('A', 'Z'), ('a', 'z'), ('0', '9'), ('_', '_'), ('.', '.')])∗

/-- Words of the pattern behind a zero and a mark, which may be in either case. -/
def marked (lower upper : Char) (pattern : Language Char) : Language Char :=
  oneOf [('0', '0')] * (oneOf [(lower, lower), (upper, upper)] * pattern)

/-- What the literals of a kind look like. -/
def literal : LiteralKind → Language Char
  | .hex => marked 'x' 'X' (row (oneOf [('0', '9'), ('A', 'F'), ('a', 'f')]))
  | .binary => marked 'b' 'B' (row (oneOf [('0', '1')]))
  | .float => marked 'f' 'F' (atMostOne sign * (mantissa * atMostOne powerOfTen))
  | .decimal => atMostOne (oneOf [('-', '-')]) * row digit

theorem within_nil {c : Char} : ¬Within [] c := by
  simp [Within]

theorem within_cons {a b c : Char} {ranges : List (Char × Char)} :
    Within ((a, b) :: ranges) c ↔ (a.toNat ≤ c.toNat ∧ c.toNat ≤ b.toNat) ∨ Within ranges c := by
  simp [Within, Char.le_def, UInt32.le_iff_toNat_le]

theorem within_single {a c : Char} : Within [(a, a)] c ↔ c = a := by
  simp only [within_cons, within_nil, or_false, ← Char.toNat_inj]
  omega

theorem within_pair {a b c : Char} : Within [(a, a), (b, b)] c ↔ c = a ∨ c = b := by
  simp only [within_cons, within_nil, or_false, ← Char.toNat_inj]
  omega

theorem isDigit_iff {c : Char} : c.isDigit = true ↔ 48 ≤ c.toNat ∧ c.toNat ≤ 57 := by
  simp [Char.isDigit, UInt32.le_iff_toNat_le]

theorem isUpper_iff {c : Char} : c.isUpper = true ↔ 65 ≤ c.toNat ∧ c.toNat ≤ 90 := by
  simp [Char.isUpper, UInt32.le_iff_toNat_le]

theorem isLower_iff {c : Char} : c.isLower = true ↔ 97 ≤ c.toNat ∧ c.toNat ≤ 122 := by
  simp [Char.isLower, UInt32.le_iff_toNat_le]

theorem within_digits {c : Char} : Within [('0', '9')] c ↔ c.isDigit = true := by
  simp [within_cons, within_nil, isDigit_iff]

theorem isDigitOf_ten_iff {c : Char} : Numeral.isDigitOf 10 c = true ↔ c.isDigit = true := by
  simp only [isDigit_iff, isLower_iff, isUpper_iff, Numeral.isDigitOf, Numeral.digitValue?,
    Char.reduceToNat]
  split_ifs <;> simp <;> omega

theorem within_hexDigits {c : Char} :
    Within [('0', '9'), ('A', 'F'), ('a', 'f')] c ↔ Numeral.isDigitOf 16 c = true := by
  simp only [within_cons, within_nil, or_false, Char.reduceToNat, isDigit_iff, isLower_iff,
    isUpper_iff, Numeral.isDigitOf, Numeral.digitValue?]
  split_ifs <;> simp <;> omega

theorem within_binaryDigits {c : Char} :
    Within [('0', '1')] c ↔ Numeral.isDigitOf 2 c = true := by
  simp only [within_cons, within_nil, or_false, Char.reduceToNat, isDigit_iff, isLower_iff,
    isUpper_iff, Numeral.isDigitOf, Numeral.digitValue?]
  split_ifs <;> simp <;> omega

theorem within_beginsName {c : Char} :
    Within [('A', 'Z'), ('a', 'z'), ('_', '_')] c ↔ Lexeme.beginsName c = true := by
  simp [within_cons, within_nil, isLower_iff, isUpper_iff, Lexeme.beginsName, Char.isAlpha,
    ← Char.toNat_inj]
  omega

theorem within_continuesName {c : Char} :
    Within [('A', 'Z'), ('a', 'z'), ('0', '9'), ('_', '_'), ('.', '.')] c ↔
      Lexeme.continuesName c = true := by
  simp [within_cons, within_nil, isLower_iff, isUpper_iff, isDigit_iff, Lexeme.continuesName,
    Char.isAlphanum, Char.isAlpha, ← Char.toNat_inj]
  omega

section Membership

variable {ranges : List (Char × Char)} {pattern : Language Char} {word : List Char}

theorem mem_oneOf_mul :
    word ∈ oneOf ranges * pattern ↔
      ∃ c rest, word = c :: rest ∧ Within ranges c ∧ rest ∈ pattern := by
  rw [Language.mem_mul]
  constructor
  · rintro ⟨_, ⟨c, hc, rfl⟩, rest, hrest, rfl⟩
    exact ⟨c, rest, rfl, hc, hrest⟩
  · rintro ⟨c, rest, rfl, hc, hrest⟩
    exact ⟨[c], ⟨c, hc, rfl⟩, rest, hrest, rfl⟩

theorem mem_marked {lower upper : Char} :
    word ∈ marked lower upper pattern ↔
      ∃ mark text, word = '0' :: mark :: text ∧ (mark = lower ∨ mark = upper) ∧
        text ∈ pattern := by
  simp only [marked, mem_oneOf_mul, within_single, within_pair]
  constructor
  · rintro ⟨_, _, rfl, rfl, mark, text, rfl, hmark, htext⟩
    exact ⟨mark, text, rfl, hmark, htext⟩
  · rintro ⟨mark, text, rfl, hmark, htext⟩
    exact ⟨'0', _, rfl, rfl, mark, text, rfl, hmark, htext⟩

theorem eq_zero_of_mem_marked {lower upper c : Char}
    (h : c :: word ∈ marked lower upper pattern) : c = '0' := by
  obtain ⟨_, _, hword, -⟩ := mem_marked.mp h
  exact (List.cons.inj hword).1

theorem mem_atMostOne : word ∈ atMostOne pattern ↔ word = [] ∨ word ∈ pattern := by
  rw [atMostOne, Language.mem_add, Language.mem_one]

theorem mem_atMostOne_mul {following : Language Char} :
    word ∈ atMostOne pattern * following ↔ word ∈ following ∨ word ∈ pattern * following := by
  rw [atMostOne, add_mul, one_mul, Language.mem_add]

theorem mem_kstar_oneOf : word ∈ (oneOf ranges)∗ ↔ ∀ c ∈ word, Within ranges c := by
  induction word with
  | nil => simp [Language.nil_mem_kstar]
  | cons c rest ih =>
      rw [← Language.one_add_self_mul_kstar_eq_kstar, Language.mem_add, Language.mem_one,
        mem_oneOf_mul, List.forall_mem_cons, ← ih]
      constructor
      · rintro (h | ⟨_, _, h, hc, hrest⟩)
        · cases h
        · cases h
          exact ⟨hc, hrest⟩
      · rintro ⟨hc, hrest⟩
        exact .inr ⟨c, rest, rfl, hc, hrest⟩

theorem mem_row_oneOf :
    word ∈ row (oneOf ranges) ↔ word ≠ [] ∧ ∀ c ∈ word, Within ranges c := by
  rw [row, mem_oneOf_mul]
  constructor
  · rintro ⟨c, rest, rfl, hc, hrest⟩
    exact ⟨List.cons_ne_nil c rest, List.forall_mem_cons.mpr ⟨hc, mem_kstar_oneOf.mp hrest⟩⟩
  · rintro ⟨hword, hall⟩
    obtain ⟨c, rest, rfl⟩ := List.exists_cons_of_ne_nil hword
    rw [List.forall_mem_cons] at hall
    exact ⟨c, rest, rfl, hall.1, mem_kstar_oneOf.mpr hall.2⟩

end Membership

/-- All words of the pattern are made of plain characters. -/
def IsPlain (pattern : Language Char) : Prop :=
  ∀ word ∈ pattern, ∀ c ∈ word, Text.IsPlain c

theorem isPlain_oneOf {ranges : List (Char × Char)}
    (h : ∀ range ∈ ranges, 0x21 ≤ range.1.toNat ∧ range.2.toNat ≤ 0x7E ∧
      ¬(range.1 ≤ ',' ∧ ',' ≤ range.2) ∧ ¬(range.1 ≤ ';' ∧ ';' ≤ range.2)) :
    IsPlain (oneOf ranges) := by
  rintro _ ⟨c, ⟨range, hrange, hlower, hupper⟩, rfl⟩ _ hmem
  obtain rfl := List.mem_singleton.mp hmem
  obtain ⟨hfirst, hlast, hcomma, hsemicolon⟩ := h range hrange
  have hlower' : range.1.toNat ≤ _ := UInt32.le_iff_toNat_le.mp (Char.le_def.mp hlower)
  have hupper' : _ ≤ range.2.toNat := UInt32.le_iff_toNat_le.mp (Char.le_def.mp hupper)
  refine ⟨hfirst.trans hlower', hupper'.trans hlast, ?_, ?_⟩
  · rintro rfl
    exact hcomma ⟨hlower, hupper⟩
  · rintro rfl
    exact hsemicolon ⟨hlower, hupper⟩

section Plain

variable {a b : Language Char}

theorem IsPlain.add (ha : IsPlain a) (hb : IsPlain b) : IsPlain (a + b) := by
  rintro word (hword | hword)
  · exact ha word hword
  · exact hb word hword

theorem IsPlain.mul (ha : IsPlain a) (hb : IsPlain b) : IsPlain (a * b) := by
  intro word hword c hc
  obtain ⟨before, hbefore, after, hafter, rfl⟩ := Language.mem_mul.mp hword
  rcases List.mem_append.mp hc with hc | hc
  · exact ha before hbefore c hc
  · exact hb after hafter c hc

theorem IsPlain.kstar (ha : IsPlain a) : IsPlain a∗ := by
  intro word hword c hc
  obtain ⟨words, rfl, hwords⟩ := Language.mem_kstar.mp hword
  obtain ⟨part, hpart, hc⟩ := List.mem_flatten.mp hc
  exact ha part (hwords part hpart) c hc

theorem IsPlain.atMostOne (ha : IsPlain a) : IsPlain (atMostOne a) := by
  refine IsPlain.add ?_ ha
  rintro word hword c hc
  rw [(Language.mem_one word).mp hword] at hc
  cases hc

theorem IsPlain.row (ha : IsPlain a) : IsPlain (row a) :=
  ha.mul ha.kstar

theorem IsPlain.marked {lower upper : Char}
    (hmark : IsPlain (oneOf [(lower, lower), (upper, upper)])) (ha : IsPlain a) :
    IsPlain (marked lower upper a) :=
  (isPlain_oneOf (by decide)).mul (hmark.mul ha)

end Plain

theorem isPlain_label : IsPlain label :=
  (isPlain_oneOf (by decide)).mul (isPlain_oneOf (by decide)).kstar

theorem isPlain_literal (kind : LiteralKind) : IsPlain (literal kind) := by
  have hdigit : IsPlain digit := isPlain_oneOf (by decide)
  have hsign : IsPlain sign := isPlain_oneOf (by decide)
  have hpoint : IsPlain (oneOf [('.', '.')]) := isPlain_oneOf (by decide)
  cases kind with
  | hex => exact .marked (isPlain_oneOf (by decide)) (isPlain_oneOf (by decide)).row
  | binary => exact .marked (isPlain_oneOf (by decide)) (isPlain_oneOf (by decide)).row
  | float =>
      have hmantissa : IsPlain mantissa :=
        (hdigit.row.mul (hpoint.mul hdigit.kstar).atMostOne).add (hpoint.mul hdigit.row)
      have hpower : IsPlain powerOfTen :=
        (isPlain_oneOf (by decide)).mul (hsign.atMostOne.mul hdigit.row)
      exact .marked (isPlain_oneOf (by decide))
        (hsign.atMostOne.mul (hmantissa.mul hpower.atMostOne))
  | decimal => exact (isPlain_oneOf (by decide)).atMostOne.mul hdigit.row

end Pattern

end StackAsm
