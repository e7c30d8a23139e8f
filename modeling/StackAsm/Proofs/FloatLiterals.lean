import Mathlib
import StackAsm.Literal
import StackAsm.Proofs.FloatValues
import StackAsm.Proofs.Integers

namespace StackAsm

open Computability Numeral

namespace Literal

/-- A sign in front of a text, if there is one. -/
inductive Signed : List Char → Bool → List Char → Prop
  | minus (body : List Char) : Signed ('-' :: body) true body
  | plus (body : List Char) : Signed ('+' :: body) false body
  | bare (body : List Char) : Signed body false body

/-- Digits with at most one point, and the number that they denote. -/
inductive Mantissa : List Char → ℚ → Prop
  | whole {digits : List Char} {number : ℕ} (hdigits : Denotes 10 digits number)
      (hne : digits ≠ []) : Mantissa digits number
  | point {whole fraction : List Char} {before behind : ℕ} (hwhole : Denotes 10 whole before)
      (hfraction : Denotes 10 fraction behind) (hne : whole ≠ [] ∨ fraction ≠ []) :
      Mantissa (whole ++ '.' :: fraction) (before + behind / 10 ^ fraction.length)

/-- The exponent of a power of ten, which is zero if none is written. -/
inductive Power : List Char → ℤ → Prop
  | none : Power [] 0
  | written {mark : Char} {text digits : List Char} {negative : Bool} {number : ℕ}
      (hmark : mark = 'e' ∨ mark = 'E') (hsign : Signed text negative digits)
      (hdigits : Denotes 10 digits number) (hne : digits ≠ []) :
      Power (mark :: text) (if negative then -number else number)

/-- The text is a float literal of the sign, which denotes the number exactly, with the exponent
that is written. -/
inductive Writes : List Char → Bool → ℚ → ℤ → Prop
  | intro {mark : Char} {text mantissa power : List Char} {negative : Bool} {number : ℚ}
      {exponent : ℤ} (hmark : mark = 'f' ∨ mark = 'F')
      (hsign : Signed text negative (mantissa ++ power)) (hmantissa : Mantissa mantissa number)
      (hpower : Power power exponent) :
      Writes ('0' :: mark :: text) negative (Binary64.signed negative (number * 10 ^ exponent))
        exponent

section Grammar

variable {text : List Char}

theorem exists_denotes_ten_iff :
    (∃ number, Denotes 10 text number) ↔ ∀ c ∈ text, c.isDigit = true := by
  simp only [exists_denotes_iff (show 10 ≤ 16 by decide), Pattern.isDigitOf_ten_iff]

theorem isDigit_of_denotes {number : ℕ} (h : Denotes 10 text number) :
    ∀ c ∈ text, c.isDigit = true :=
  exists_denotes_ten_iff.mp ⟨number, h⟩

theorem mem_atMostOne_sign_mul_iff {pattern : Language Char} :
    text ∈ Pattern.atMostOne Pattern.sign * pattern ↔
      ∃ negative body, Signed text negative body ∧ body ∈ pattern := by
  simp only [Pattern.mem_atMostOne_mul, Pattern.sign, Pattern.mem_oneOf_mul, Pattern.within_pair]
  constructor
  · rintro (h | ⟨_, body, rfl, rfl | rfl, h⟩)
    · exact ⟨false, text, .bare text, h⟩
    · exact ⟨false, body, .plus body, h⟩
    · exact ⟨true, body, .minus body, h⟩
  · rintro ⟨_, body, hsign, h⟩
    cases hsign with
    | minus => exact .inr ⟨'-', body, rfl, .inr rfl, h⟩
    | plus => exact .inr ⟨'+', body, rfl, .inl rfl, h⟩
    | bare => exact .inl h

theorem mem_mantissa_iff : text ∈ Pattern.mantissa ↔ ∃ number, Mantissa text number := by
  rw [Decimal.mem_mantissa_iff]
  constructor
  · rintro ⟨whole, fraction, hwhole, hfraction, hne, hform⟩
    obtain ⟨before, hbefore⟩ := exists_denotes_ten_iff.mpr hwhole
    obtain ⟨behind, hbehind⟩ := exists_denotes_ten_iff.mpr hfraction
    rcases hform with rfl | ⟨rfl, rfl⟩
    · exact ⟨_, .point hbefore hbehind hne⟩
    · exact ⟨_, .whole hbefore (hne.resolve_right fun h => h rfl)⟩
  · rintro ⟨_, h⟩
    cases h with
    | whole hdigits hne =>
        exact ⟨text, [], isDigit_of_denotes hdigits, by simp, .inl hne, .inr ⟨rfl, rfl⟩⟩
    | point hwhole hfraction hne =>
        exact ⟨_, _, isDigit_of_denotes hwhole, isDigit_of_denotes hfraction, hne, .inl rfl⟩

theorem mem_atMostOne_powerOfTen_iff :
    text ∈ Pattern.atMostOne Pattern.powerOfTen ↔ ∃ exponent, Power text exponent := by
  simp only [Pattern.mem_atMostOne, Pattern.powerOfTen, Pattern.mem_oneOf_mul,
    Pattern.within_pair, mem_atMostOne_sign_mul_iff, Decimal.mem_row_digit_iff]
  constructor
  · rintro (rfl | ⟨mark, body, rfl, hmark, negative, digits, hsign, hne, hdigits⟩)
    · exact ⟨0, .none⟩
    · obtain ⟨number, hnumber⟩ := exists_denotes_ten_iff.mpr hdigits
      exact ⟨_, .written hmark hsign hnumber hne⟩
  · rintro ⟨_, h⟩
    cases h with
    | none => exact .inl rfl
    | written hmark hsign hdigits hne =>
        exact .inr ⟨_, _, rfl, hmark, _, _, hsign, hne, isDigit_of_denotes hdigits⟩

theorem mem_float_iff :
    text ∈ Pattern.literal .float ↔
      ∃ negative number exponent, Writes text negative number exponent := by
  simp only [Pattern.literal, Pattern.mem_marked, mem_atMostOne_sign_mul_iff]
  simp only [Language.mem_mul, mem_mantissa_iff, mem_atMostOne_powerOfTen_iff]
  constructor
  · rintro ⟨mark, text, rfl, hmark, negative, _, hsign, mantissa, ⟨number, hmantissa⟩, power,
      ⟨exponent, hpower⟩, rfl⟩
    exact ⟨negative, _, exponent, .intro hmark hsign hmantissa hpower⟩
  · rintro ⟨negative, _, exponent, h⟩
    cases h with
    | intro hmark hsign hmantissa hpower =>
        exact ⟨_, _, rfl, hmark, negative, _, hsign, _, ⟨_, hmantissa⟩, _, ⟨exponent, hpower⟩, rfl⟩

end Grammar

section Digits

variable {digits following : List Char} {value number : ℕ}

theorem digitValue?_ten {c : Char} {digit : ℕ} (h : digitValue? 10 c = some digit) :
    c.toNat - '0'.toNat = digit := by
  have hc : c.isDigit = true := by
    rw [← Pattern.isDigitOf_ten_iff, isDigitOf, h]
    rfl
  simp only [digitValue?, hc, if_true] at h
  exact (Option.ite_none_right_eq_some.mp h).2 |> Option.some.inj

theorem foldl_of_valueAfter? (h : valueAfter? 10 value digits = some number) :
    digits.foldl (fun value c => value * 10 + (c.toNat - '0'.toNat)) value = number := by
  induction digits generalizing value with
  | nil => exact Option.some.inj h
  | cons c cs ih =>
      obtain ⟨digit, hdigit, hrest⟩ := Option.bind_eq_some_iff.mp h
      rw [List.foldl_cons, digitValue?_ten hdigit]
      exact ih hrest

theorem decimalValue_of_denotes (h : Denotes 10 digits number) : decimalValue digits = number :=
  foldl_of_valueAfter? ((denotes_iff (by decide)).mp h)

theorem exponentMagnitude_of_denotes (h : Denotes 10 digits number)
    (hnumber : number < Decimal.exponentBound) : Decimal.exponentMagnitude digits = number := by
  have hfold {value : ℕ} (hvalue : valueAfter? 10 value digits = some number) :
      digits.foldl (fun value c =>
        if value < Decimal.exponentBound then value * 10 + (c.toNat - '0'.toNat) else value)
          value = number := by
    clear h
    induction digits generalizing value with
    | nil => exact Option.some.inj hvalue
    | cons c cs ih =>
        have hlt : value < Decimal.exponentBound :=
          (le_of_valueAfter? hvalue (by decide)).trans_lt hnumber
        obtain ⟨digit, hdigit, hrest⟩ := Option.bind_eq_some_iff.mp hvalue
        rw [List.foldl_cons, if_pos hlt, digitValue?_ten hdigit]
        exact ih hrest
  exact hfold ((denotes_iff (by decide)).mp h)

theorem decimalValue_append {before behind : ℕ} (hdigits : Denotes 10 digits before)
    (hfollowing : Denotes 10 following behind) :
    decimalValue (digits ++ following) = before * 10 ^ following.length + behind := by
  obtain ⟨values, hvalues, rfl⟩ := hfollowing
  apply foldl_of_valueAfter?
  rw [valueAfter?_append, (denotes_iff (by decide)).mp hdigits, Option.bind_some,
    valueAfter?_eq_some_iff (by decide)]
  exact ⟨values, hvalues, by rw [hvalues.length_eq]⟩

end Digits

section Reading

variable {text body digits : List Char} {negative : Bool} {number : ℚ} {exponent : ℤ}

theorem splitSign_of_signed (h : Signed text negative body)
    (hbody : ∀ c ∈ body.head?, c ≠ '+' ∧ c ≠ '-') :
    Decimal.splitSign text = (negative, body) := by
  cases h with
  | minus => rfl
  | plus => rfl
  | bare =>
      rcases text with _ | ⟨c, cs⟩
      · rfl
      · obtain ⟨hplus, hminus⟩ := hbody c rfl
        simp [Decimal.splitSign, hplus, hminus]

theorem ne_sign_of_isDigit {c : Char} (h : c.isDigit = true ∨ c = '.') : c ≠ '+' ∧ c ≠ '-' := by
  constructor
  · rintro rfl
    exact absurd h (by decide)
  · rintro rfl
    exact absurd h (by decide)

theorem readExponent?_of_power (h : Power text exponent)
    (hexponent : |exponent| < Decimal.exponentBound) :
    Decimal.readExponent? text = some exponent := by
  cases h with
  | none => rfl
  | @written mark text digits negative number hmark hsign hdigits hne =>
      have hall := isDigit_of_denotes hdigits
      have hsplit := splitSign_of_signed hsign fun c hc =>
        ne_sign_of_isDigit (.inl (hall c (List.mem_of_mem_head? hc)))
      have hlt : number < Decimal.exponentBound := by
        cases negative with
        | false => simpa using hexponent
        | true => simpa using hexponent
      have hguard : ((mark == 'e' || mark == 'E') && !digits.isEmpty &&
          digits.all Char.isDigit) = true := by
        simp [hmark, hne, List.all_eq_true.mpr hall]
      simp only [Decimal.readExponent?, hsplit, hguard, if_true,
        exponentMagnitude_of_denotes hdigits hlt]

theorem head_of_power (h : Power text exponent) :
    ∀ c ∈ text.head?, c.isDigit = false ∧ c ≠ '.' := by
  intro c hc
  cases h with
  | none => cases hc
  | written hmark =>
      cases hc
      rcases hmark with rfl | rfl <;> decide

theorem head_of_mantissa (h : Mantissa text number) (rest : List Char) :
    ∀ c ∈ (text ++ rest).head?, c ≠ '+' ∧ c ≠ '-' := by
  obtain ⟨first, others, rfl, hfirst⟩ :=
    Decimal.exists_cons_of_mem_mantissa (mem_mantissa_iff.mpr ⟨number, h⟩)
  intro c hc
  cases hc
  exact ne_sign_of_isDigit hfirst

theorem exists_split_of_mantissa (h : Mantissa text number) {rest : List Char}
    (hrest : ∀ c ∈ rest.head?, c.isDigit = false ∧ c ≠ '.') :
    ∃ whole fraction, (text ++ rest).takeWhile Char.isDigit = whole ∧
      Decimal.splitFraction ((text ++ rest).dropWhile Char.isDigit) = (fraction, rest) ∧
        (whole ≠ [] ∨ fraction ≠ []) ∧
          number = decimalValue (whole ++ fraction) / 10 ^ fraction.length := by
  cases h with
  | @whole digits value hdigits hne =>
      obtain ⟨htake, hdrop⟩ := Decimal.takeWhile_append_of_head
        (isDigit_of_denotes hdigits) fun c hc => (hrest c hc).1
      refine ⟨text, [], htake, ?_, .inl hne, ?_⟩
      · rw [hdrop, Decimal.splitFraction_of_head fun c hc => (hrest c hc).2]
      · rw [List.append_nil, decimalValue_of_denotes hdigits, List.length_nil, pow_zero, div_one]
  | @point whole fraction before behind hwhole hfraction hne =>
      have hpoint : ∀ c ∈ ('.' :: (fraction ++ rest)).head?, c.isDigit = false := by simp
      obtain ⟨htake, hdrop⟩ := Decimal.takeWhile_append_of_head
        (isDigit_of_denotes hwhole) hpoint
      obtain ⟨htakeFraction, hdropFraction⟩ := Decimal.takeWhile_append_of_head
        (isDigit_of_denotes hfraction) fun c hc => (hrest c hc).1
      rw [List.append_assoc, List.cons_append, htake, hdrop]
      refine ⟨whole, fraction, rfl, ?_, hne, ?_⟩
      · rw [Decimal.splitFraction, htakeFraction, hdropFraction]
      · rw [decimalValue_append hwhole hfraction]
        push_cast
        field_simp

theorem exists_ofText? {mantissa power : List Char}
    (hsign : Signed text negative (mantissa ++ power)) (hmantissa : Mantissa mantissa number)
    (hpower : Power power exponent) (hexponent : |exponent| < Decimal.exponentBound) :
    ∃ decimal, Decimal.ofText? text = some decimal ∧ decimal.negative = negative ∧
      (decimal.digits : ℚ) * 10 ^ decimal.exponent = number * 10 ^ exponent := by
  obtain ⟨whole, fraction, htake, hsplit, hne, rfl⟩ :=
    exists_split_of_mantissa hmantissa (head_of_power hpower)
  have hread := readExponent?_of_power hpower hexponent
  have hsome : (whole.isEmpty && fraction.isEmpty) = false := by
    rw [Bool.and_eq_false_iff, List.isEmpty_eq_false_iff, List.isEmpty_eq_false_iff]
    exact hne
  refine ⟨{ negative
            digits := decimalValue (whole ++ fraction)
            exponent := exponent - fraction.length }, ?_, rfl, ?_⟩
  · simp only [Decimal.ofText?, splitSign_of_signed hsign (head_of_mantissa hmantissa power), htake,
      hsplit, hsome, hread, Option.map_some, Bool.false_eq_true, if_false]
  · rw [zpow_sub₀ (by decide), zpow_natCast]
    ring

end Reading

section Bits

variable {text : String} {negative : Bool} {number : ℚ} {exponent : ℤ}

theorem numerator_div_denominator (decimal : Decimal) :
    (decimal.numerator : ℚ) / decimal.denominator = decimal.digits * 10 ^ decimal.exponent := by
  have hexponent : decimal.exponent =
      (decimal.exponent.toNat : ℤ) - ((-decimal.exponent).toNat : ℤ) := by omega
  have hpower : (10 : ℚ) ^ decimal.exponent =
      10 ^ decimal.exponent.toNat / 10 ^ (-decimal.exponent).toNat := by
    conv_lhs => rw [hexponent]
    rw [zpow_sub₀ (by decide), zpow_natCast, zpow_natCast]
  rw [hpower, ← mul_div_assoc, Decimal.numerator, Decimal.denominator, Nat.pow_eq, Nat.pow_eq,
    Nat.cast_mul, Nat.cast_pow, Nat.cast_pow, Nat.cast_ofNat]

theorem denominator_pos (decimal : Decimal) : 0 < decimal.denominator :=
  Nat.pow_pos (by decide)

theorem abs_signed (hnumber : 0 ≤ number) : |Binary64.signed negative number| = number := by
  cases negative with
  | false => exact abs_of_nonneg hnumber
  | true => exact (abs_neg number).trans (abs_of_nonneg hnumber)

theorem bits_of_decimal {decimal : Decimal}
    (h : Decimal.ofText? (afterMark text.toList) = some decimal) :
    ({ kind := .float, text } : Literal).bits =
      match decimal.binary64? with
      | some bits => .ok bits
      | none => .error { cause := .outOfRange, text } := by
  simp only [bits, floatBits, h]
  cases decimal.binary64? with
  | none => rfl
  | some bits => rfl

theorem afterMark_cons {mark : Char} (hmark : mark = 'f' ∨ mark = 'F') (body : List Char) :
    afterMark ('0' :: mark :: body) = body := by
  rcases hmark with rfl | rfl <;> rfl

theorem exists_decimal_of_writes {chars : List Char} (h : Writes chars negative number exponent)
    (hexponent : |exponent| < Decimal.exponentBound) :
    ∃ decimal, Decimal.ofText? (afterMark chars) = some decimal ∧ decimal.negative = negative ∧
      number = Binary64.signed negative (decimal.numerator / decimal.denominator) := by
  cases h with
  | intro hmark hsign hmantissa hpower =>
      obtain ⟨decimal, htext, hnegative, hvalue⟩ :=
        exists_ofText? hsign hmantissa hpower hexponent
      refine ⟨decimal, ?_, hnegative, ?_⟩
      · rw [afterMark_cons hmark, htext]
      · rw [numerator_div_denominator, hvalue]

theorem bits_ne_malformed (h : text.toList ∈ Pattern.literal .float) :
    ({ kind := .float, text } : Literal).bits ≠ .error { cause := .malformed, text } := by
  obtain ⟨mark, body, htext, hmark, hsome⟩ := hasShape_float_iff.mp (hasShape_iff_mem.mpr h)
  obtain ⟨decimal, hdecimal⟩ := Option.isSome_iff_exists.mp hsome
  have hafter : afterMark text.toList = body := by rw [htext, afterMark_cons hmark]
  rw [← hafter] at hdecimal
  rw [bits_of_decimal hdecimal]
  cases decimal.binary64? with
  | none => simp
  | some bits => simp

theorem isFinite_of_bits {bits : UInt64}
    (h : ({ kind := .float, text } : Literal).bits = .ok bits) : Binary64.IsFinite bits := by
  have hfloat : floatBits text.toList = .ok bits := Outcome.mapError_eq_ok_iff.mp h
  simp only [floatBits] at hfloat
  split at hfloat
  · split at hfloat
    · next hbinary =>
      cases hfloat
      exact Binary64.isFinite_of_ofRatio? hbinary
    · cases hfloat
  · cases hfloat

/-- What the bits of a float literal are. -/
structure RoundsFloat (text : String) : Prop where
  denotes : text.toList ∈ Pattern.literal .float ↔
    ∃ negative number exponent, Writes text.toList negative number exponent
  outOfRange : ∀ negative number exponent, Writes text.toList negative number exponent →
    |exponent| < 65536 →
      (({ kind := .float, text } : Literal).bits = .error { cause := .outOfRange, text } ↔
        2 ^ 1024 - 2 ^ 970 ≤ |number|)
  /-- No other bits could be meant. -/
  rounded : ∀ negative number exponent, Writes text.toList negative number exponent →
    |exponent| < 65536 → |number| < 2 ^ 1024 - 2 ^ 970 →
      ∃ bits, ({ kind := .float, text } : Literal).bits = .ok bits ∧
        ∀ other, Binary64.Rounds negative number other ↔ other = bits
  notMalformed : text.toList ∈ Pattern.literal .float →
    ({ kind := .float, text } : Literal).bits ≠ .error { cause := .malformed, text }
  finite : ∀ bits, ({ kind := .float, text } : Literal).bits = .ok bits → Binary64.IsFinite bits

/-- The bits of any float literal, as far as its exponent is below the bound. -/
theorem roundsFloat (text : String) : RoundsFloat text := by
  constructor
  · exact mem_float_iff
  · intro negative number exponent h hexponent
    obtain ⟨decimal, hdecimal, rfl, rfl⟩ := exists_decimal_of_writes h hexponent
    have hnone : decimal.binary64? = none ↔ _ :=
      Binary64.ofRatio?_eq_none_iff (denominator_pos decimal)
    rw [bits_of_decimal hdecimal, abs_signed (by positivity), ← hnone]
    cases decimal.binary64? with
    | none => simp
    | some bits => simp
  · intro negative number exponent h hexponent hlt
    obtain ⟨decimal, hdecimal, rfl, rfl⟩ := exists_decimal_of_writes h hexponent
    rw [abs_signed (by positivity)] at hlt
    obtain ⟨bits, hbits, hunique⟩ :=
      @Binary64.exists_ofRatio? decimal.negative _ _ (denominator_pos decimal) hlt
    refine ⟨bits, ?_, hunique⟩
    rw [bits_of_decimal hdecimal, Decimal.binary64?, hbits]
  · exact bits_ne_malformed
  · exact fun bits => isFinite_of_bits

theorem roundsFloat_underflow :
    Writes "0f-1E-400".toList true (Binary64.signed true ((1 : ℕ) * 10 ^ (-400 : ℤ))) (-400) ∧
      ({ kind := .float, text := "0f-1E-400" } : Literal).bits = .ok 0x8000000000000000 ∧
        Binary64.Rounds true (Binary64.signed true ((1 : ℕ) * 10 ^ (-400 : ℤ)))
          0x8000000000000000 := by
  have htext : "0f-1E-400".toList =
      '0' :: 'f' :: '-' :: (['1'] ++ 'E' :: '-' :: ['4', '0', '0']) := by decide
  have hone : Denotes 10 ['1'] 1 := (denotes_iff (by decide)).mpr (by decide)
  have hdigits : Denotes 10 ['4', '0', '0'] 400 := (denotes_iff (by decide)).mpr (by decide)
  have hwrites : Writes "0f-1E-400".toList true
      (Binary64.signed true ((1 : ℕ) * 10 ^ (-400 : ℤ))) (-400) := by
    rw [htext]
    exact .intro (.inl rfl) (.minus _) (.whole hone (by decide))
      (.written (.inr rfl) (.minus _) hdigits (by decide))
  have hbits : ({ kind := .float, text := "0f-1E-400" } : Literal).bits =
      .ok 0x8000000000000000 := by decide +kernel
  have hlt : |Binary64.signed true ((1 : ℕ) * 10 ^ (-400 : ℤ))| < 2 ^ 1024 - 2 ^ 970 := by
    rw [← not_le, ← (roundsFloat _).outOfRange _ _ _ hwrites (by decide), hbits]
    intro herror
    cases herror
  obtain ⟨bits, hok, hrounds⟩ := (roundsFloat _).rounded _ _ _ hwrites (by decide) hlt
  rw [hbits] at hok
  exact ⟨hwrites, hbits, (hrounds _).mpr (Except.ok.inj hok)⟩

/-- The number is halfway between two values, and the one below it is even. -/
example :
    ({ kind := .float, text := "0f9007199254740993" } : Literal).bits = .ok 0x4340000000000000 := by
  decide +kernel

end Bits

end Literal

end StackAsm
