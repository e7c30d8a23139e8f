import Mathlib
import StackAsm.Proofs.Patterns

namespace StackAsm

open Computability Pattern

namespace Decimal

theorem splitSign_mem_iff {pattern : Language Char}
    (hpattern : ∀ word ∈ pattern, ∀ c ∈ word.head?, c ≠ '+' ∧ c ≠ '-') {text : List Char} :
    (splitSign text).2 ∈ pattern ↔ text ∈ atMostOne sign * pattern := by
  rw [mem_atMostOne_mul, sign, mem_oneOf_mul]
  rcases text with _ | ⟨c, rest⟩
  · simp [splitSign]
  · by_cases hsign : c = '+' ∨ c = '-'
    · have hsplit : (splitSign (c :: rest)).2 = rest := by rcases hsign with rfl | rfl <;> rfl
      rw [hsplit]
      constructor
      · intro h
        exact .inr ⟨c, rest, rfl, within_pair.mpr hsign, h⟩
      · rintro (h | ⟨_, _, h, -, hrest⟩)
        · obtain ⟨hplus, hminus⟩ := hpattern _ h c rfl
          exact absurd hsign (not_or.mpr ⟨hplus, hminus⟩)
        · cases h
          exact hrest
    · rw [not_or] at hsign
      have hsplit : (splitSign (c :: rest)).2 = c :: rest := by simp [splitSign, hsign]
      rw [hsplit]
      constructor
      · exact .inl
      · rintro (h | ⟨_, _, h, hc, -⟩)
        · exact h
        · cases h
          exact absurd (within_pair.mp hc) (not_or.mpr hsign)

theorem mem_row_digit_iff {text : List Char} :
    text ∈ row digit ↔ text ≠ [] ∧ ∀ c ∈ text, c.isDigit = true := by
  simp only [digit, mem_row_oneOf, within_digits]

theorem isSome_readExponent?_iff {text : List Char} :
    (readExponent? text).isSome = true ↔ text ∈ atMostOne powerOfTen := by
  rw [mem_atMostOne]
  rcases text with _ | ⟨e, rest⟩
  · simp [readExponent?]
  · have hdigits : ∀ word ∈ row digit, ∀ c ∈ word.head?, c ≠ '+' ∧ c ≠ '-' := by
      intro word hword c hc
      have hdigit := (mem_row_digit_iff.mp hword).2 c (List.mem_of_mem_head? hc)
      constructor
      · rintro rfl
        cases hdigit
      · rintro rfl
        cases hdigit
    simp only [powerOfTen, mem_oneOf_mul, ← splitSign_mem_iff hdigits, mem_row_digit_iff,
      List.cons.injEq, within_pair, reduceCtorEq, false_or]
    constructor
    · intro h
      simp only [readExponent?] at h
      split at h
      · next hguard =>
        simp only [Bool.and_eq_true, Bool.or_eq_true, beq_iff_eq, Bool.not_eq_true',
          List.isEmpty_eq_false_iff, List.all_eq_true] at hguard
        exact ⟨e, rest, ⟨rfl, rfl⟩, hguard.1.1, hguard.1.2, hguard.2⟩
      · cases h
    · rintro ⟨_, _, ⟨rfl, rfl⟩, hmark, hne, hall⟩
      have hguard : ((e == 'e' || e == 'E') && !(splitSign rest).2.isEmpty &&
          (splitSign rest).2.all Char.isDigit) = true := by
        simp [hmark, hne, List.all_eq_true.mpr hall]
      simp only [readExponent?, hguard, if_true, Option.isSome_some]

theorem mem_mantissa_iff {text : List Char} :
    text ∈ mantissa ↔
      ∃ whole fraction, (∀ c ∈ whole, c.isDigit = true) ∧ (∀ c ∈ fraction, c.isDigit = true) ∧
        (whole ≠ [] ∨ fraction ≠ []) ∧
          (text = whole ++ '.' :: fraction ∨ text = whole ∧ fraction = []) := by
  simp only [mantissa, Language.mem_add, Language.mem_mul (l := row digit), mem_row_digit_iff,
    mem_atMostOne, mem_oneOf_mul, within_single]
  constructor
  · rintro (⟨whole, ⟨hne, hwhole⟩, tail, htail, rfl⟩ | ⟨_, fraction, rfl, rfl, hne, hfraction⟩)
    · rcases htail with rfl | ⟨_, fraction, rfl, rfl, hfraction⟩
      · exact ⟨whole, [], hwhole, by simp, .inl hne, .inr ⟨List.append_nil whole, rfl⟩⟩
      · rw [digit, mem_kstar_oneOf] at hfraction
        simp only [within_digits] at hfraction
        exact ⟨whole, fraction, hwhole, hfraction, .inl hne, .inl rfl⟩
    · exact ⟨[], fraction, by simp, hfraction, .inr hne, .inl rfl⟩
  · rintro ⟨whole, fraction, hwhole, hfraction, hne, rfl | ⟨rfl, rfl⟩⟩
    · rcases eq_or_ne whole [] with rfl | hwhole'
      · exact .inr ⟨'.', fraction, rfl, rfl, hne.resolve_left (by simp), hfraction⟩
      · refine .inl ⟨whole, ⟨hwhole', hwhole⟩, _, .inr ⟨'.', fraction, rfl, rfl, ?_⟩, rfl⟩
        rw [digit, mem_kstar_oneOf]
        simpa only [within_digits] using hfraction
    · exact .inl ⟨text, ⟨hne.resolve_right (by simp), hwhole⟩, [], .inl rfl, List.append_nil text⟩

theorem exists_cons_of_mem_mantissa {text : List Char} (h : text ∈ mantissa) :
    ∃ c rest, text = c :: rest ∧ (c.isDigit = true ∨ c = '.') := by
  obtain ⟨whole, fraction, hwhole, -, hne, hform⟩ := mem_mantissa_iff.mp h
  rcases whole with _ | ⟨c, whole⟩
  · rcases hform with rfl | ⟨rfl, rfl⟩
    · exact ⟨'.', fraction, rfl, .inr rfl⟩
    · exact absurd hne (by simp)
  · have hc := hwhole c List.mem_cons_self
    rcases hform with rfl | ⟨rfl, -⟩
    · exact ⟨c, _, rfl, .inl hc⟩
    · exact ⟨c, whole, rfl, .inl hc⟩

theorem takeWhile_append_of_head {whole rest : List Char}
    (hwhole : ∀ c ∈ whole, c.isDigit = true) (hrest : ∀ c ∈ rest.head?, c.isDigit = false) :
    (whole ++ rest).takeWhile Char.isDigit = whole ∧
      (whole ++ rest).dropWhile Char.isDigit = rest := by
  rw [List.takeWhile_append_of_pos hwhole, List.dropWhile_append_of_pos hwhole]
  rcases rest with _ | ⟨c, rest⟩
  · exact ⟨List.append_nil whole, rfl⟩
  · have hc := hrest c rfl
    simp [hc]

theorem splitFraction_of_head {text : List Char} (h : ∀ c ∈ text.head?, c ≠ '.') :
    splitFraction text = ([], text) := by
  rcases text with _ | ⟨c, rest⟩
  · rfl
  · have hc := h c rfl
    simp [splitFraction, hc]

section Fraction

variable {pattern : Language Char} {text : List Char}

theorem mem_mantissa_mul_of_split
    (hne : text.takeWhile Char.isDigit ≠ [] ∨
      (splitFraction (text.dropWhile Char.isDigit)).1 ≠ [])
    (hrest : (splitFraction (text.dropWhile Char.isDigit)).2 ∈ pattern) :
    text ∈ mantissa * pattern := by
  have hdigits {text : List Char} : ∀ c ∈ text.takeWhile Char.isDigit, c.isDigit = true :=
    List.all_eq_true.mp List.all_takeWhile
  have htext : text.takeWhile Char.isDigit ++ text.dropWhile Char.isDigit = text :=
    List.takeWhile_append_dropWhile
  by_cases hpoint : ∃ following, text.dropWhile Char.isDigit = '.' :: following
  · obtain ⟨following, hfollowing⟩ := hpoint
    rw [hfollowing, splitFraction] at hne hrest
    refine Language.mem_mul.mpr ⟨_, mem_mantissa_iff.mpr
      ⟨_, _, hdigits, hdigits, hne, .inl rfl⟩, _, hrest, ?_⟩
    rw [List.append_assoc, List.cons_append, List.takeWhile_append_dropWhile, ← hfollowing, htext]
  · have hsplit : splitFraction (text.dropWhile Char.isDigit) =
        ([], text.dropWhile Char.isDigit) := by
      apply splitFraction_of_head
      rintro c hc rfl
      obtain ⟨following, hfollowing⟩ := List.head?_eq_some_iff.mp hc
      exact hpoint ⟨following, hfollowing⟩
    rw [hsplit] at hne hrest
    exact Language.mem_mul.mpr ⟨_, mem_mantissa_iff.mpr
      ⟨_, [], hdigits, by simp, hne, .inr ⟨rfl, rfl⟩⟩, _, hrest, htext⟩

theorem split_of_mem_mantissa_mul
    (hpattern : ∀ word ∈ pattern, ∀ c ∈ word.head?, c.isDigit = false ∧ c ≠ '.')
    (h : text ∈ mantissa * pattern) :
    (text.takeWhile Char.isDigit ≠ [] ∨
        (splitFraction (text.dropWhile Char.isDigit)).1 ≠ []) ∧
      (splitFraction (text.dropWhile Char.isDigit)).2 ∈ pattern := by
  obtain ⟨body, hbody, rest, hrest, rfl⟩ := Language.mem_mul.mp h
  obtain ⟨whole, fraction, hwhole, hfraction, hne, hform⟩ := mem_mantissa_iff.mp hbody
  have hhead := hpattern rest hrest
  rcases hform with rfl | ⟨rfl, rfl⟩
  · have hpoint : ∀ c ∈ ('.' :: (fraction ++ rest)).head?, c.isDigit = false := by simp
    obtain ⟨htake, hdrop⟩ := takeWhile_append_of_head hwhole hpoint
    obtain ⟨htakeFraction, hdropFraction⟩ :=
      takeWhile_append_of_head hfraction fun c hc => (hhead c hc).1
    rw [List.append_assoc, List.cons_append, htake, hdrop, splitFraction, htakeFraction,
      hdropFraction]
    exact ⟨hne, hrest⟩
  · obtain ⟨htake, hdrop⟩ := takeWhile_append_of_head hwhole fun c hc => (hhead c hc).1
    rw [htake, hdrop, splitFraction_of_head fun c hc => (hhead c hc).2]
    exact ⟨hne, hrest⟩

/-- The digits are split from what follows exactly where the pattern splits them, if that begins
neither with a digit nor with a point. -/
theorem splitFraction_mem_iff
    (hpattern : ∀ word ∈ pattern, ∀ c ∈ word.head?, c.isDigit = false ∧ c ≠ '.') :
    (text.takeWhile Char.isDigit ≠ [] ∨
        (splitFraction (text.dropWhile Char.isDigit)).1 ≠ []) ∧
      (splitFraction (text.dropWhile Char.isDigit)).2 ∈ pattern ↔
        text ∈ mantissa * pattern :=
  ⟨fun h => mem_mantissa_mul_of_split h.1 h.2, split_of_mem_mantissa_mul hpattern⟩

end Fraction

theorem isSome_ofText?_iff {text : List Char} :
    (ofText? text).isSome = true ↔
      text ∈ atMostOne sign * (mantissa * atMostOne powerOfTen) := by
  have hpower : ∀ word ∈ atMostOne powerOfTen, ∀ c ∈ word.head?, c.isDigit = false ∧ c ≠ '.' := by
    intro word hword c hc
    rcases mem_atMostOne.mp hword with rfl | hword
    · cases hc
    · obtain ⟨_, _, rfl, hmark, -⟩ := mem_oneOf_mul.mp hword
      cases hc
      rcases within_pair.mp hmark with rfl | rfl <;> decide
  have hnumeral : ∀ word ∈ mantissa * atMostOne powerOfTen, ∀ c ∈ word.head?,
      c ≠ '+' ∧ c ≠ '-' := by
    intro word hword c hc
    obtain ⟨_, hmantissa, rest, -, rfl⟩ := Language.mem_mul.mp hword
    obtain ⟨first, others, rfl, hfirst⟩ := exists_cons_of_mem_mantissa hmantissa
    cases hc
    constructor
    · rintro rfl
      exact absurd hfirst (by decide)
    · rintro rfl
      exact absurd hfirst (by decide)
  rw [← splitSign_mem_iff hnumeral, ← splitFraction_mem_iff hpower, ← isSome_readExponent?_iff]
  simp only [ofText?]
  split
  · next hempty =>
    simp only [Bool.and_eq_true, List.isEmpty_iff] at hempty
    simp [hempty]
  · next hempty =>
    simp only [Bool.and_eq_true, List.isEmpty_iff, not_and_or] at hempty
    simp only [Option.isSome_map]
    exact ⟨fun h => ⟨hempty, h⟩, fun h => h.2⟩

end Decimal

namespace Literal

theorem areDigits_iff {radix : Nat} {text : List Char} :
    areDigits radix text = true ↔
      text ≠ [] ∧ ∀ c ∈ text, Numeral.isDigitOf radix c = true := by
  simp [areDigits]

theorem hasShape_hex_iff {word : List Char} :
    hasShape .hex word = true ↔
      ∃ mark text, word = '0' :: mark :: text ∧ (mark = 'x' ∨ mark = 'X') ∧
        areDigits 16 text = true := by
  constructor
  · intro h
    unfold hasShape at h
    split at h <;> simp_all
  · rintro ⟨mark, text, rfl, hmark, hdigits⟩
    simp [hasShape, hmark, hdigits]

theorem hasShape_binary_iff {word : List Char} :
    hasShape .binary word = true ↔
      ∃ mark text, word = '0' :: mark :: text ∧ (mark = 'b' ∨ mark = 'B') ∧
        areDigits 2 text = true := by
  constructor
  · intro h
    unfold hasShape at h
    split at h <;> simp_all
  · rintro ⟨mark, text, rfl, hmark, hdigits⟩
    simp [hasShape, hmark, hdigits]

theorem hasShape_float_iff {word : List Char} :
    hasShape .float word = true ↔
      ∃ mark text, word = '0' :: mark :: text ∧ (mark = 'f' ∨ mark = 'F') ∧
        (Decimal.ofText? text).isSome = true := by
  constructor
  · intro h
    unfold hasShape at h
    split at h <;> simp_all
  · rintro ⟨mark, text, rfl, hmark, hdecimal⟩
    simp [hasShape, hmark, hdecimal]

theorem hasShape_decimal_iff {word : List Char} :
    hasShape .decimal word = true ↔
      areDigits 10 word = true ∨ ∃ text, word = '-' :: text ∧ areDigits 10 text = true := by
  by_cases hminus : ∃ text, word = '-' :: text
  · obtain ⟨text, rfl⟩ := hminus
    simp [hasShape, areDigits, Numeral.isDigitOf, Numeral.digitValue?]
  · unfold hasShape
    split <;> simp_all

theorem hasShape_iff_mem {kind : LiteralKind} {word : List Char} :
    hasShape kind word = true ↔ word ∈ Pattern.literal kind := by
  cases kind with
  | hex =>
      simp only [hasShape_hex_iff, Pattern.literal, mem_marked, mem_row_oneOf, within_hexDigits,
        areDigits_iff]
  | binary =>
      simp only [hasShape_binary_iff, Pattern.literal, mem_marked, mem_row_oneOf,
        within_binaryDigits, areDigits_iff]
  | float =>
      simp only [hasShape_float_iff, Pattern.literal, mem_marked, Decimal.isSome_ofText?_iff]
  | decimal =>
      simp only [hasShape_decimal_iff, Pattern.literal, mem_atMostOne_mul, mem_oneOf_mul,
        within_single, Decimal.mem_row_digit_iff, areDigits_iff, isDigitOf_ten_iff]
      refine or_congr_right ?_
      constructor
      · rintro ⟨text, rfl, htext⟩
        exact ⟨'-', text, rfl, rfl, htext⟩
      · rintro ⟨_, text, rfl, rfl, htext⟩
        exact ⟨text, rfl, htext⟩

theorem head_of_hasShape {kind : LiteralKind} {c : Char} {rest : List Char}
    (h : hasShape kind (c :: rest) = true) : c.isDigit = true ∨ c = '-' := by
  have hzero {d : Char} (hd : d = '0') : d.isDigit = true ∨ d = '-' := by
    rw [hd]
    exact .inl rfl
  cases kind with
  | hex => exact hzero (eq_zero_of_mem_marked (hasShape_iff_mem.mp h))
  | binary => exact hzero (eq_zero_of_mem_marked (hasShape_iff_mem.mp h))
  | float => exact hzero (eq_zero_of_mem_marked (hasShape_iff_mem.mp h))
  | decimal =>
      obtain hdigits | ⟨_, hword, -⟩ := hasShape_decimal_iff.mp h
      · exact .inl (isDigitOf_ten_iff.mp ((areDigits_iff.mp hdigits).2 c List.mem_cons_self))
      · cases hword
        exact .inr rfl

/-- The only kind whose shape a word can have: the one that its mark tells. -/
def kindByMark : List Char → LiteralKind
  | '0' :: mark :: _ =>
      if mark = 'x' ∨ mark = 'X' then .hex
      else if mark = 'b' ∨ mark = 'B' then .binary
      else if mark = 'f' ∨ mark = 'F' then .float
      else .decimal
  | _ => .decimal

theorem kindByMark_of_hasShape {kind : LiteralKind} {word : List Char}
    (h : hasShape kind word = true) : kindByMark word = kind := by
  cases kind with
  | hex =>
      obtain ⟨_, _, rfl, rfl | rfl, -⟩ := hasShape_hex_iff.mp h
      all_goals rfl
  | binary =>
      obtain ⟨_, _, rfl, rfl | rfl, -⟩ := hasShape_binary_iff.mp h
      all_goals rfl
  | float =>
      obtain ⟨_, _, rfl, rfl | rfl, -⟩ := hasShape_float_iff.mp h
      all_goals rfl
  | decimal =>
      -- the second character is a digit, and no mark is one
      obtain hdigits | ⟨text, rfl, -⟩ := hasShape_decimal_iff.mp h
      · unfold kindByMark
        split
        · next mark _ =>
          have hmark := (areDigits_iff.mp hdigits).2 mark (by simp)
          rw [isDigitOf_ten_iff] at hmark
          split_ifs with hx hb hf
          · rcases hx with rfl | rfl <;> cases hmark
          · rcases hb with rfl | rfl <;> cases hmark
          · rcases hf with rfl | rfl <;> cases hmark
          · rfl
        · rfl
      · rfl

theorem hasShape_unique {j k : LiteralKind} {word : List Char} (hj : hasShape j word = true)
    (hk : hasShape k word = true) : j = k := by
  rw [← kindByMark_of_hasShape hj, kindByMark_of_hasShape hk]

theorem ofWord?_eq_some_iff {word : String} {literal : Literal} :
    ofWord? word = some literal ↔
      literal.text = word ∧ word.toList ∈ Pattern.literal literal.kind := by
  rw [ofWord?, Option.map_eq_some_iff]
  constructor
  · rintro ⟨kind, hfind, rfl⟩
    exact ⟨rfl, hasShape_iff_mem.mp (by simpa using List.find?_some hfind)⟩
  · rcases literal with ⟨kind, text⟩
    rintro ⟨rfl, hpattern⟩
    refine ⟨kind, ?_, rfl⟩
    have hshape := hasShape_iff_mem.mpr hpattern
    cases hfind : [LiteralKind.hex, .binary, .float, .decimal].find? (hasShape · text.toList) with
    | none =>
        rw [List.find?_eq_none] at hfind
        exact absurd hshape (hfind kind (by cases kind <;> decide))
    | some found =>
        exact congrArg some (hasShape_unique (by simpa using List.find?_some hfind) hshape)

end Literal

namespace Lexeme

theorem isName_iff_mem {word : List Char} : isName word = true ↔ word ∈ label := by
  simp only [label, mem_oneOf_mul, mem_kstar_oneOf, within_beginsName, within_continuesName]
  rcases word with _ | ⟨c, rest⟩
  · simp [isName]
  · simp [isName]

theorem beginsName_eq_false {c : Char} (h : c.isDigit = true ∨ c = '-') :
    beginsName c = false := by
  rcases h with h | rfl
  · rw [← Bool.not_eq_true, ← within_beginsName]
    rw [isDigit_iff] at h
    simp only [within_cons, within_nil, or_false, Char.reduceToNat]
    omega
  · rfl

theorem notMem_literal_of_mem_label {word : List Char} (h : word ∈ label) (kind : LiteralKind) :
    word ∉ Pattern.literal kind := by
  intro hliteral
  rw [← isName_iff_mem] at h
  rw [← Literal.hasShape_iff_mem] at hliteral
  rcases word with _ | ⟨c, rest⟩
  · cases h
  · rw [isName, beginsName_eq_false (Literal.head_of_hasShape hliteral)] at h
    cases h

/-- Whatever has the pattern of names and is no keyword is a name. -/
structure IsLabel (name : String) : Prop where
  pattern : name.toList ∈ label
  notSection : name ≠ "section"
  notNative : name ≠ "native"

instance (name : String) : Decidable (IsLabel name) :=
  decidable_of_iff (isName name.toList = true ∧ name ≠ "section" ∧ name ≠ "native")
    ⟨fun ⟨hname, hsection, hnative⟩ => ⟨isName_iff_mem.mp hname, hsection, hnative⟩,
      fun ⟨hname, hsection, hnative⟩ => ⟨isName_iff_mem.mpr hname, hsection, hnative⟩⟩

theorem isWord_of_mem_label {name : String} (h : name.toList ∈ label) : Text.IsWord name where
  nonempty := by
    obtain ⟨c, rest, hname, -⟩ := mem_oneOf_mul.mp h
    rw [hname]
    exact List.cons_ne_nil c rest
  plain := isPlain_label _ h

theorem isWord_of_mem_literal {kind : LiteralKind} {text : String}
    (h : text.toList ∈ Pattern.literal kind) : Text.IsWord text where
  nonempty := by
    intro hnil
    rw [hnil, ← Literal.hasShape_iff_mem] at h
    cases kind <;> cases h
  plain := isPlain_literal kind _ h

theorem ofWord?_of_isLabel {name : String} (h : IsLabel name) :
    ofWord? name = some (.word name) := by
  have hnone : Literal.ofWord? name = none := by
    rw [Option.eq_none_iff_forall_ne_some]
    intro literal hsome
    exact notMem_literal_of_mem_label h.pattern literal.kind
      (Literal.ofWord?_eq_some_iff.mp hsome).2
  simp only [ofWord?, sectionText, nativeText, h.notSection, h.notNative, if_false, hnone,
    isName_iff_mem.mpr h.pattern, if_true]

theorem ofWord?_of_mem_literal {literal : Literal}
    (h : literal.text.toList ∈ Pattern.literal literal.kind) :
    ofWord? literal.text = some (.number literal) := by
  have hkeyword {keyword : String} (hlabel : keyword.toList ∈ label) : literal.text ≠ keyword := by
    rintro heq
    exact notMem_literal_of_mem_label hlabel literal.kind (heq ▸ h)
  have hsection : literal.text ≠ "section" := hkeyword (isName_iff_mem.mp (by decide))
  have hnative : literal.text ≠ "native" := hkeyword (isName_iff_mem.mp (by decide))
  have hliteral := Literal.ofWord?_eq_some_iff.mpr ⟨rfl, h⟩
  simp only [ofWord?, sectionText, nativeText, hsection, hnative, if_false, hliteral]

/-- The word is scanned as the lexeme wherever it stands in a line. -/
structure WrittenAs (word : String) (lexeme : Lexeme) : Prop where
  isWord : Text.IsWord word
  ofWord? : Lexeme.ofWord? word = some lexeme

theorem writtenAs_label {name : String} (h : IsLabel name) : WrittenAs name (.word name) :=
  ⟨isWord_of_mem_label h.pattern, ofWord?_of_isLabel h⟩

theorem writtenAs_literal (literal : Literal)
    (h : literal.text.toList ∈ Pattern.literal literal.kind) :
    WrittenAs literal.text (.number literal) :=
  ⟨isWord_of_mem_literal h, ofWord?_of_mem_literal h⟩

theorem writtenAs_section : WrittenAs "section" .sectionKeyword :=
  ⟨isWord_of_mem_label (isName_iff_mem.mp (by decide)), rfl⟩

theorem writtenAs_native : WrittenAs "native" .nativeKeyword :=
  ⟨isWord_of_mem_label (isName_iff_mem.mp (by decide)), rfl⟩

end Lexeme

end StackAsm
