import Mathlib
import StackAsm.Proofs.HexLiterals
import StackAsm.Proofs.Scanning

namespace StackAsm

namespace Numeral

/-- The character is the digit of a radix, letters in either case. -/
def IsDigit (radix : Nat) (c : Char) (digit : Nat) : Prop :=
  digit < radix ∧ (c = Nat.digitChar digit ∨ c = (Nat.digitChar digit).toUpper)

/-- The text is a row of digits, the most significant one first, that denotes the number. An empty
row denotes zero. -/
def Denotes (radix : Nat) (text : List Char) (number : Nat) : Prop :=
  ∃ digits, List.Forall₂ (IsDigit radix) text digits ∧
    number = Nat.ofDigits radix digits.reverse

/-- The longest row of digits that a text begins with, which denotes the number, and the rest. -/
structure LeadingRun (radix : Nat) (text run rest : List Char) (number : Nat) : Prop where
  split : text = run ++ rest
  denotes : Denotes radix run number
  stops : ∀ c ∈ rest.head?, ∀ digit, ¬IsDigit radix c digit

section Digits

variable {radix : Nat} (hradix : radix ≤ 16)
include hradix

theorem digitValue?_eq_some_iff {c : Char} {digit : Nat} :
    digitValue? radix c = some digit ↔ IsDigit radix c digit := by
  -- a character is compared by its code, and only below sixteen are these codes in three rows
  have hlower : ∀ digit < 16,
      (Nat.digitChar digit).toNat = if digit < 10 then 48 + digit else 87 + digit := by decide
  have hupper : ∀ digit < 16,
      (Nat.digitChar digit).toUpper.toNat = if digit < 10 then 48 + digit else 55 + digit := by
    decide
  rw [IsDigit, ← Char.toNat_inj, ← Char.toNat_inj]
  simp only [digitValue?, Pattern.isDigit_iff, Pattern.isLower_iff, Pattern.isUpper_iff,
    Char.reduceToNat, Option.ite_none_right_eq_some, Option.some.injEq]
  constructor
  · rintro ⟨hlt, rfl⟩
    refine ⟨hlt, ?_⟩
    rw [hlower _ (hlt.trans_le hradix), hupper _ (hlt.trans_le hradix)]
    split_ifs at hlt ⊢ <;> omega
  · rintro ⟨hlt, h⟩
    rw [hlower _ (hlt.trans_le hradix), hupper _ (hlt.trans_le hradix)] at h
    split_ifs at h ⊢ <;> omega

theorem isDigitOf_iff {c : Char} :
    isDigitOf radix c = true ↔ ∃ digit, IsDigit radix c digit := by
  simp only [isDigitOf, Option.isSome_iff_exists, digitValue?_eq_some_iff hradix]

theorem valueAfter?_eq_some_iff {value number : Nat} {text : List Char} :
    valueAfter? radix value text = some number ↔
      ∃ digits, List.Forall₂ (IsDigit radix) text digits ∧
        number = value * radix ^ digits.length + Nat.ofDigits radix digits.reverse := by
  induction text generalizing value with
  | nil => simp [valueAfter?, eq_comm]
  | cons c cs ih =>
      have hnumber (digit : Nat) (digits : List Nat) :
          (value * radix + digit) * radix ^ digits.length + Nat.ofDigits radix digits.reverse =
            value * radix ^ (digit :: digits).length +
              Nat.ofDigits radix (digit :: digits).reverse := by
        rw [List.reverse_cons, Nat.ofDigits_append, Nat.ofDigits_singleton, List.length_reverse,
          List.length_cons]
        ring
      simp only [valueAfter?, Option.bind_eq_some_iff, digitValue?_eq_some_iff hradix, ih,
        List.forall₂_cons_left_iff]
      constructor
      · rintro ⟨digit, hdigit, digits, hdigits, rfl⟩
        exact ⟨digit :: digits, ⟨digit, digits, hdigit, hdigits, rfl⟩, hnumber digit digits⟩
      · rintro ⟨_, ⟨digit, digits, hdigit, hdigits, rfl⟩, rfl⟩
        exact ⟨digit, hdigit, digits, hdigits, (hnumber digit digits).symm⟩

theorem denotes_iff {text : List Char} {number : Nat} :
    Denotes radix text number ↔ valueAfter? radix 0 text = some number := by
  simp only [Denotes, valueAfter?_eq_some_iff hradix, Nat.zero_mul, Nat.zero_add]

theorem exists_denotes_iff {text : List Char} :
    (∃ number, Denotes radix text number) ↔ ∀ c ∈ text, isDigitOf radix c = true := by
  constructor
  · rintro ⟨number, h⟩
    exact isDigitOf_of_valueAfter? ((denotes_iff hradix).mp h)
  · intro h
    have hdigits : ∃ digits, List.Forall₂ (IsDigit radix) text digits := by
      induction text with
      | nil => exact ⟨[], .nil⟩
      | cons c cs ih =>
          obtain ⟨hc, hcs⟩ := List.forall_mem_cons.mp h
          obtain ⟨digit, hdigit⟩ := (isDigitOf_iff hradix).mp hc
          obtain ⟨digits, hdigits⟩ := ih hcs
          exact ⟨digit :: digits, .cons hdigit hdigits⟩
    obtain ⟨digits, hdigits⟩ := hdigits
    exact ⟨_, digits, hdigits, rfl⟩

theorem exists_leadingRun (text : List Char) :
    ∃ run rest number, LeadingRun radix text run rest number := by
  have hrun : ∀ c ∈ text.takeWhile (isDigitOf radix), isDigitOf radix c = true :=
    List.all_eq_true.mp List.all_takeWhile
  obtain ⟨number, hnumber⟩ := (exists_denotes_iff hradix).mpr hrun
  refine ⟨_, text.dropWhile (isDigitOf radix), number, List.takeWhile_append_dropWhile.symm,
    hnumber, ?_⟩
  intro c hc digit hdigit
  have hstop := List.head?_dropWhile_not (isDigitOf radix) text
  rw [hc] at hstop
  simp [(isDigitOf_iff hradix).mpr ⟨digit, hdigit⟩] at hstop

/-- Reading ends at the first obstacle. What it has found by then is told by the digits before it.
-/
theorem read_of_leadingRun {text run rest : List Char} {number : Nat} (hpos : 0 < radix)
    (h : LeadingRun radix text run rest number) (limit : Nat) :
    read radix limit text =
      if number ≤ limit then if text ≠ [] ∧ rest = [] then .ok number else .error .malformed
      else .error .outOfRange := by
  have hvalue := (denotes_iff hradix).mp h.denotes
  have hread := readDigits_append hvalue hpos (Nat.zero_le limit) rest
  rw [← h.split] at hread
  rcases text with _ | ⟨c, cs⟩
  · -- an empty text is malformed by itself, for nothing in it is read
    obtain ⟨rfl, rfl⟩ := List.append_eq_nil_iff.mp h.split.symm
    cases hvalue
    simp [read]
  · change readDigits radix limit 0 (c :: cs) = _
    rw [hread]
    rcases rest with _ | ⟨d, ds⟩
    · simp [readDigits]
    · have hstop : digitValue? radix d = none := by
        rw [Option.eq_none_iff_forall_ne_some]
        exact fun digit hdigit =>
          h.stops d rfl digit ((digitValue?_eq_some_iff hradix).mp hdigit)
      simp [readDigits, hstop]

end Digits

end Numeral

namespace Literal

/-- One plus sign is taken off a text, if it begins with one. -/
inductive AfterPlus : List Char → List Char → Prop
  | signed (body : List Char) : AfterPlus ('+' :: body) body
  | bare {body : List Char} (hsign : body.head? ≠ some '+') : AfterPlus body body

/-- The first two bytes are taken off a text. If there are fewer, or if a character has one of its
bytes there and another one behind, nothing is left. -/
inductive AfterBytes : List Char → List Char → Prop
  | cut (mark behind : List Char) (hbytes : (String.ofList mark).utf8ByteSize = 2) :
      AfterBytes (mark ++ behind) behind
  | broken {text : List Char} (hbytes : ∀ mark behind, text = mark ++ behind →
      (String.ofList mark).utf8ByteSize ≠ 2) : AfterBytes text []

/-- What an integer literal is read as: a sign, and a body in a radix. -/
structure Form where
  radix : Nat
  negative : Bool
  body : List Char
  deriving DecidableEq, Repr

/-- The form of each integer literal. Only a decimal one can be negative, and then its sign is not
followed by another. -/
inductive HasForm : Literal → Form → Prop
  | negative {text : String} {body : List Char} (hsign : text.toList = '-' :: body) :
      HasForm { kind := .decimal, text } { radix := 10, negative := true, body }
  | decimal {text : String} {body : List Char} (hsign : text.toList.head? ≠ some '-')
      (hbody : AfterPlus text.toList body) :
      HasForm { kind := .decimal, text } { radix := 10, negative := false, body }
  | hex {text : String} {behind body : List Char} (hmark : AfterBytes text.toList behind)
      (hbody : AfterPlus behind body) :
      HasForm { kind := .hex, text } { radix := 16, negative := false, body }
  | binary {text : String} {behind body : List Char} (hmark : AfterBytes text.toList behind)
      (hbody : AfterPlus behind body) :
      HasForm { kind := .binary, text } { radix := 2, negative := false, body }

namespace Form

/-- The magnitudes that 64 bits have room for, in two's complement if there is a minus sign. -/
def InRange (form : Form) (magnitude : Nat) : Prop :=
  if form.negative then magnitude ≤ 2 ^ 63 else magnitude < 2 ^ 64

/-- The number of a magnitude. -/
def value (form : Form) (magnitude : Nat) : Int :=
  if form.negative then -magnitude else magnitude

/-- The greatest magnitude. -/
def limit (form : Form) : Nat :=
  if form.negative then UInt64.size / 2 else UInt64.size - 1

theorem inRange_iff {form : Form} {magnitude : Nat} :
    form.InRange magnitude ↔ magnitude ≤ form.limit := by
  rcases form with ⟨radix, _ | _, body⟩
  · exact (Nat.le_sub_one_iff_lt (by decide)).symm
  · exact Iff.rfl

instance (form : Form) : DecidablePred form.InRange := fun _ =>
  decidable_of_iff _ inRange_iff.symm

end Form

theorem afterPlus_iff {text body : List Char} :
    AfterPlus text body ↔ Numeral.dropPlus text = body := by
  constructor
  · rintro (_ | hsign)
    · rfl
    · unfold Numeral.dropPlus
      split
      · exact absurd rfl hsign
      · rfl
  · rintro rfl
    unfold Numeral.dropPlus
    split
    · next body => exact .signed body
    · next hsign =>
      refine .bare fun hplus => ?_
      obtain ⟨body, rfl⟩ := List.head?_eq_some_iff.mp hplus
      exact hsign body rfl

theorem afterMark_of_afterBytes {text behind : List Char} (h : AfterBytes text behind) :
    afterMark text = behind := by
  cases h with
  | cut mark behind hbytes =>
      rw [String.utf8ByteSize_ofList] at hbytes
      rcases mark with _ | ⟨c, _ | ⟨d, _ | ⟨e, mark⟩⟩⟩
      · cases hbytes
      · have hc : c.utf8Size = 2 := by simpa [String.utf8Len_cons] using hbytes
        rcases behind with _ | ⟨d, behind⟩
        · rfl
        · simp [afterMark, hc]
      · have hc := c.utf8Size_pos
        have hd := d.utf8Size_pos
        simp only [String.utf8Len_cons, String.utf8Len_nil] at hbytes
        have hc : c.utf8Size = 1 := by omega
        have hd : d.utf8Size = 1 := by omega
        simp [afterMark, hc, hd]
      · have hc := c.utf8Size_pos
        have hd := d.utf8Size_pos
        have he := e.utf8Size_pos
        simp only [String.utf8Len_cons] at hbytes
        omega
  | broken hbytes =>
      rcases text with _ | ⟨c, _ | ⟨d, text⟩⟩
      · rfl
      · rfl
      · have hc := hbytes [c] (d :: text) rfl
        have hcd := hbytes [c, d] text rfl
        simp only [String.utf8ByteSize_ofList, String.utf8Len_cons, String.utf8Len_nil] at hc hcd
        rw [afterMark, if_neg (by omega), if_neg]
        simp only [Bool.and_eq_true, decide_eq_true_eq]
        omega

theorem exists_afterBytes (text : List Char) : ∃ behind, AfterBytes text behind := by
  by_cases h : ∃ mark behind, text = mark ++ behind ∧ (String.ofList mark).utf8ByteSize = 2
  · obtain ⟨mark, behind, rfl, hbytes⟩ := h
    exact ⟨behind, .cut mark behind hbytes⟩
  · push Not at h
    exact ⟨[], .broken h⟩

theorem afterBytes_iff {text behind : List Char} :
    AfterBytes text behind ↔ afterMark text = behind := by
  constructor
  · exact afterMark_of_afterBytes
  · rintro rfl
    obtain ⟨behind, h⟩ := exists_afterBytes text
    rwa [afterMark_of_afterBytes h]

theorem form_unique {literal : Literal} {a b : Form} (ha : literal.HasForm a)
    (hb : literal.HasForm b) : a = b := by
  cases ha with
  | negative hsign =>
      cases hb with
      | negative hother => rw [hsign, List.cons.injEq] at hother; rw [hother.2]
      | decimal hother _ => simp [hsign] at hother
  | decimal hsign hbody =>
      cases hb with
      | negative hother => simp [hother] at hsign
      | decimal _ hother => rw [← afterPlus_iff.mp hbody, afterPlus_iff.mp hother]
  | hex hmark hbody =>
      cases hb with
      | hex hotherMark hother =>
        rw [afterBytes_iff] at hmark hotherMark
        rw [← afterPlus_iff.mp hbody, ← hmark, hotherMark, afterPlus_iff.mp hother]
  | binary hmark hbody =>
      cases hb with
      | binary hotherMark hother =>
        rw [afterBytes_iff] at hmark hotherMark
        rw [← afterPlus_iff.mp hbody, ← hmark, hotherMark, afterPlus_iff.mp hother]

theorem exists_form {literal : Literal} (hkind : literal.kind ≠ .float) :
    ∃ form, literal.HasForm form := by
  rcases literal with ⟨kind, text⟩
  cases kind with
  | decimal =>
      by_cases hsign : text.toList.head? = some '-'
      · obtain ⟨body, hbody⟩ := List.head?_eq_some_iff.mp hsign
        exact ⟨_, .negative hbody⟩
      · exact ⟨_, .decimal hsign (afterPlus_iff.mpr rfl)⟩
  | hex => exact ⟨_, .hex (afterBytes_iff.mpr rfl) (afterPlus_iff.mpr rfl)⟩
  | binary => exact ⟨_, .binary (afterBytes_iff.mpr rfl) (afterPlus_iff.mpr rfl)⟩
  | float => exact absurd rfl hkind

theorem bits_of_hasForm {literal : Literal} {form : Form} (h : literal.HasForm form) :
    literal.bits =
      ((Numeral.read form.radix form.limit form.body).map fun magnitude =>
        UInt64.ofInt (form.value magnitude)).mapError fun cause =>
          { cause, text := literal.text } := by
  have hplain (magnitude : Nat) : UInt64.ofInt magnitude = UInt64.ofNat magnitude := by
    have hmod : ((magnitude : Int) % 2 ^ 64).toNat = magnitude % 2 ^ 64 := by omega
    rw [UInt64.ofInt, hmod, UInt64.ofNat_mod_size]
  have hnegative (magnitude : Nat) :
      UInt64.ofInt (-(magnitude : Int)) = -UInt64.ofNat magnitude := by
    rw [UInt64.ofInt_neg, hplain]
  cases h with
  | negative hsign => simp [bits, decimalBits, hsign, Form.value, Form.limit, hnegative]
  | @decimal text body hsign hbody =>
      have hdecimal : decimalBits text.toList =
          (Numeral.read 10 (UInt64.size - 1) (Numeral.dropPlus text.toList)).map UInt64.ofNat := by
        unfold decimalBits
        split
        · next htext => simp [htext] at hsign
        · rfl
      rw [afterPlus_iff] at hbody
      simp [bits, hdecimal, hbody, Form.value, Form.limit, hplain]
  | hex hmark hbody =>
      rw [afterBytes_iff] at hmark
      rw [afterPlus_iff] at hbody
      simp [bits, radixBits, hmark, hbody, Form.value, Form.limit, hplain]
  | binary hmark hbody =>
      rw [afterBytes_iff] at hmark
      rw [afterPlus_iff] at hbody
      simp [bits, radixBits, hmark, hbody, Form.value, Form.limit, hplain]

theorem radix_of_hasForm {literal : Literal} {form : Form} (h : literal.HasForm form) :
    0 < form.radix ∧ form.radix ≤ 16 := by
  cases h <;> simp

/-- What a literal of a form stands for. -/
structure Form.Decides (form : Form) (literal : Literal) : Prop where
  /-- If the body is a row of digits, the range decides. -/
  number : form.body ≠ [] → ∀ magnitude, Numeral.Denotes form.radix form.body magnitude →
    literal.bits =
      if form.InRange magnitude then .ok (UInt64.ofInt (form.value magnitude))
      else .error { cause := .outOfRange, text := literal.text }
  /-- The body begins with some digits, or with none. -/
  leading : ∃ run rest magnitude,
    Numeral.LeadingRun form.radix form.body run rest magnitude
  /-- If it is no row of digits, those that it begins with decide. -/
  obstacle : (form.body = [] ∨ ¬∃ magnitude, Numeral.Denotes form.radix form.body magnitude) →
    ∀ run rest magnitude, Numeral.LeadingRun form.radix form.body run rest magnitude →
      literal.bits =
        .error
          { cause := if form.InRange magnitude then .malformed else .outOfRange
            text := literal.text }

theorem decides_of_hasForm {literal : Literal} {form : Form} (h : literal.HasForm form) :
    form.Decides literal := by
  obtain ⟨hpos, hle⟩ := radix_of_hasForm h
  have hbits {run rest : List Char} {magnitude : Nat}
      (hrun : Numeral.LeadingRun form.radix form.body run rest magnitude) :
      literal.bits =
        if form.InRange magnitude then
          if form.body ≠ [] ∧ rest = [] then .ok (UInt64.ofInt (form.value magnitude))
          else .error { cause := .malformed, text := literal.text }
        else .error { cause := .outOfRange, text := literal.text } := by
    rw [bits_of_hasForm h, Numeral.read_of_leadingRun hle hpos hrun form.limit]
    simp only [Form.inRange_iff]
    split_ifs <;> rfl
  refine ⟨?_, Numeral.exists_leadingRun hle form.body, ?_⟩
  · intro hne magnitude hdenotes
    have hrun : Numeral.LeadingRun form.radix form.body form.body [] magnitude :=
      ⟨(List.append_nil form.body).symm, hdenotes, by simp⟩
    rw [hbits hrun]
    simp only [hne, ne_eq, not_false_eq_true, and_self, if_true]
  · intro hbody run rest magnitude hrun
    have hrest : ¬(form.body ≠ [] ∧ rest = []) := by
      rintro ⟨hne, rfl⟩
      rcases hbody with hnil | hnone
      · exact hne hnil
      · refine hnone ⟨magnitude, ?_⟩
        rw [hrun.split, List.append_nil]
        exact hrun.denotes
    rw [hbits hrun, if_neg hrest]
    split_ifs <;> rfl

theorem exists_form_of_mem {literal : Literal} (hkind : literal.kind ≠ .float)
    (h : literal.text.toList ∈ Pattern.literal literal.kind) :
    ∃ form, literal.HasForm form ∧ areDigits form.radix form.body = true := by
  rcases literal with ⟨kind, text⟩
  rw [← hasShape_iff_mem] at h
  cases kind with
  | decimal =>
      rcases hasShape_decimal_iff.mp h with hdigits | ⟨body, htext, hdigits⟩
      · refine ⟨_, .decimal (fun hsign => ?_)
          (afterPlus_iff.mpr (Numeral.dropPlus_of_areDigits hdigits)), hdigits⟩
        have hdigit := (areDigits_iff.mp hdigits).2 '-' (List.mem_of_mem_head? hsign)
        exact absurd hdigit (by decide)
      · exact ⟨_, .negative htext, hdigits⟩
  | hex =>
      obtain ⟨mark, body, htext, hmark, hdigits⟩ := hasShape_hex_iff.mp h
      refine ⟨_, .hex (afterBytes_iff.mpr ?_)
        (afterPlus_iff.mpr (Numeral.dropPlus_of_areDigits hdigits)), hdigits⟩
      rw [htext]
      rcases hmark with rfl | rfl <;> rfl
  | binary =>
      obtain ⟨mark, body, htext, hmark, hdigits⟩ := hasShape_binary_iff.mp h
      refine ⟨_, .binary (afterBytes_iff.mpr ?_)
        (afterPlus_iff.mpr (Numeral.dropPlus_of_areDigits hdigits)), hdigits⟩
      rw [htext]
      rcases hmark with rfl | rfl <;> rfl
  | float => exact absurd rfl hkind

/-- What integer literals stand for, whatever their text is. -/
theorem bits_integer (literal : Literal) :
    (literal.kind ≠ .float → ∃! form, literal.HasForm form) ∧
      (∀ form, literal.HasForm form → form.Decides literal) ∧
      ∀ word, Lexeme.ofWord? word = some (.number literal) → literal.kind ≠ .float →
        ∀ fault, literal.bits = .error fault → fault.cause = .outOfRange := by
  refine ⟨?_, fun form h => decides_of_hasForm h, ?_⟩
  · intro hkind
    obtain ⟨form, h⟩ := exists_form hkind
    exact ⟨form, h, fun other hother => form_unique hother h⟩
  · intro word hword hkind fault hfault
    cases Lexeme.spells_iff.mpr hword with
    | number hpattern =>
        obtain ⟨form, hform, hdigits⟩ := exists_form_of_mem hkind hpattern
        obtain ⟨hne, hall⟩ := areDigits_iff.mp hdigits
        obtain ⟨magnitude, hmagnitude⟩ :=
          (Numeral.exists_denotes_iff (radix_of_hasForm hform).2).mpr hall
        rw [(decides_of_hasForm hform).number hne magnitude hmagnitude] at hfault
        split at hfault
        · cases hfault
        · cases hfault
          rfl

/-- The least of the negative numbers. -/
example : bits { kind := .decimal, text := "-9223372036854775808" } = .ok 0x8000000000000000 := by
  decide +kernel

/-- Of two obstacles the first one is told. -/
example :
    bits { kind := .hex, text := "0x+00010000000000000000-" } =
        .error { cause := .outOfRange, text := "0x+00010000000000000000-" } ∧
      bits { kind := .hex, text := "0x+0001000000000000000-0" } =
        .error { cause := .malformed, text := "0x+0001000000000000000-0" } := by
  decide +kernel

end Literal

end StackAsm
