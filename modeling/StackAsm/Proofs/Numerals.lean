import Mathlib
import StackAsm.Number.Hexadecimal
import StackAsm.Number.Numeral

namespace StackAsm.Numeral

/-- The number that digits denote when another one has been read before them, without a limit. -/
def valueAfter? (radix value : Nat) : List Char → Option Nat
  | [] => some value
  | c :: cs => (digitValue? radix c).bind fun digit => valueAfter? radix (value * radix + digit) cs

theorem valueAfter?_append (radix value : Nat) (text following : List Char) :
    valueAfter? radix value (text ++ following) =
      (valueAfter? radix value text).bind fun middle => valueAfter? radix middle following := by
  induction text generalizing value with
  | nil => rfl
  | cons c cs ih =>
      rw [List.cons_append, valueAfter?, valueAfter?]
      cases digitValue? radix c with
      | none => rfl
      | some digit => exact ih (value * radix + digit)

section Digits

variable {radix value number : Nat} {text : List Char}
  (h : valueAfter? radix value text = some number)
include h

theorem isDigitOf_of_valueAfter? : ∀ c ∈ text, isDigitOf radix c = true := by
  induction text generalizing value with
  | nil => simp
  | cons c cs ih =>
      obtain ⟨digit, hdigit, hrest⟩ := Option.bind_eq_some_iff.mp h
      rw [List.forall_mem_cons, isDigitOf, hdigit]
      exact ⟨rfl, ih hrest⟩

theorem le_of_valueAfter? (hradix : 0 < radix) : value ≤ number := by
  induction text generalizing value with
  | nil => exact (Option.some.inj h).le
  | cons c cs ih =>
      obtain ⟨digit, -, hrest⟩ := Option.bind_eq_some_iff.mp h
      calc
        value ≤ value * radix := Nat.le_mul_of_pos_right value hradix
        _ ≤ value * radix + digit := Nat.le_add_right _ _
        _ ≤ number := ih hrest

/-- Nothing on the way to a number exceeds it, so only the number itself is compared. Whatever
follows is read on from there. -/
theorem readDigits_append (hradix : 0 < radix) {limit : Nat} (hvalue : value ≤ limit)
    (following : List Char) :
    readDigits radix limit value (text ++ following) =
      if number ≤ limit then readDigits radix limit number following else .error .outOfRange := by
  induction text generalizing value with
  | nil => rw [List.nil_append, ← Option.some.inj h, if_pos hvalue]
  | cons c cs ih =>
      obtain ⟨digit, hdigit, hrest⟩ := Option.bind_eq_some_iff.mp h
      simp only [List.cons_append, readDigits, hdigit]
      split
      · next hnext => exact ih hrest hnext
      · next hnext =>
        rw [if_neg (fun hnumber => hnext ((le_of_valueAfter? hrest hradix).trans hnumber))]

end Digits

section Limit

variable {radix limit value number : Nat} {text : List Char}

theorem valueAfter?_of_readDigits (hvalue : value ≤ limit)
    (h : readDigits radix limit value text = .ok number) :
    valueAfter? radix value text = some number ∧ number ≤ limit := by
  induction text generalizing value with
  | nil =>
      cases h
      exact ⟨rfl, hvalue⟩
  | cons c cs ih =>
      rw [readDigits] at h
      cases hdigit : digitValue? radix c with
      | none => simp [hdigit] at h
      | some digit =>
          simp only [hdigit] at h
          split at h
          · next hnext =>
            rw [valueAfter?, hdigit, Option.bind_some]
            exact ih hnext h
          · cases h

theorem read_eq_ok_iff (hradix : 0 < radix) (hne : text ≠ []) :
    read radix limit text = .ok number ↔
      valueAfter? radix 0 text = some number ∧ number ≤ limit := by
  obtain ⟨c, cs, rfl⟩ := List.exists_cons_of_ne_nil hne
  change readDigits radix limit 0 (c :: cs) = .ok number ↔ _
  constructor
  · exact valueAfter?_of_readDigits (Nat.zero_le limit)
  · rintro ⟨hnumber, hlimit⟩
    have hread := readDigits_append hnumber hradix (Nat.zero_le limit) []
    rwa [List.append_nil, if_pos hlimit] at hread

end Limit

end StackAsm.Numeral

namespace StackAsm.Hexadecimal

open Numeral

theorem digitValue?_digitChar :
    ∀ digit < 16, digitValue? 16 (Nat.digitChar digit).toUpper = some digit := by
  decide

theorem valueAfter?_digits (number : Nat) : valueAfter? 16 0 (digits number) = some number := by
  induction number using Nat.strongRecOn with
  | _ number ih =>
      rw [digits, Nat.toDigits_eq_if (by decide)]
      split
      · next hsmall =>
        rw [List.map_singleton, valueAfter?, digitValue?_digitChar number hsmall]
        simp [valueAfter?]
      · next hlarge =>
        have hdigit : number % 16 < 16 := Nat.mod_lt _ (by decide)
        have hbefore := ih (number / 16) (by omega)
        rw [digits] at hbefore
        rw [List.map_append, valueAfter?_append, hbefore, Option.bind_some, List.map_singleton,
          valueAfter?, digitValue?_digitChar _ hdigit]
        simp only [valueAfter?, Option.bind_some]
        congr 1
        omega

theorem valueAfter?_padded (width number : Nat) :
    valueAfter? 16 0 (padded width number).toList = some number := by
  have hzeros (count : Nat) : valueAfter? 16 0 (List.replicate count '0') = some 0 := by
    induction count with
    | zero => rfl
    | succ count ih =>
        rw [List.replicate_succ]
        exact ih
  rw [padded, String.toList_ofList, List.leftpad, valueAfter?_append, hzeros]
  exact valueAfter?_digits number

theorem isDigitOf_padded (width number : Nat) :
    ∀ c ∈ (padded width number).toList, isDigitOf 16 c = true :=
  isDigitOf_of_valueAfter? (valueAfter?_padded width number)

theorem padded_injective (width : Nat) : Function.Injective (padded width) := by
  intro a b h
  have hvalue := valueAfter?_padded width a
  rw [h, valueAfter?_padded] at hvalue
  exact (Option.some.inj hvalue).symm

theorem padded_ne_nil (width number : Nat) : (padded width number).toList ≠ [] := by
  simp [padded, digits, List.leftpad]

end StackAsm.Hexadecimal
