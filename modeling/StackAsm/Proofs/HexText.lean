import Mathlib
import StackAsm.Proofs.Integers

namespace StackAsm.Hexadecimal

open Numeral

/-- The text is a number in upper case digits, with zeros in front only where the width asks for
more digits than the number has. -/
structure Writes (width number : Nat) (text : String) : Prop where
  denotes : Denotes 16 text.toList number
  upper : ∀ c ∈ text.toList, c.isLower = false
  width_le : width ≤ text.length
  shortest : width < text.length → text.toList.head? ≠ some '0'

/-- The bytes that pairs of digits stand for. -/
def readBytes? : List Char → Option (List UInt8)
  | [] => some []
  | [_] => none
  | high :: low :: text =>
      (valueAfter? 16 0 [high, low]).bind fun value =>
        (readBytes? text).map (UInt8.ofNat value :: ·)

theorem isLower_toUpper (c : Char) : c.toUpper.isLower = false := by
  simp only [Char.toUpper]
  split
  · next h =>
    have hlower : 97 ≤ c.toNat ∧ c.toNat ≤ 122 := by
      simpa [UInt32.le_iff_toNat_le] using h
    rw [← Bool.not_eq_true, Pattern.isLower_iff]
    change ¬(97 ≤ (c.val + 4294967264).toNat ∧ (c.val + 4294967264).toNat ≤ 122)
    have hvalue : c.val.toNat = c.toNat := rfl
    have hshift : UInt32.toNat 4294967264 = 4294967264 := by decide
    rw [UInt32.toNat_add, hvalue, hshift]
    omega
  · next h => simpa [Char.isLower] using h

theorem isLower_of_mem_padded {width number : Nat} {c : Char}
    (hc : c ∈ (padded width number).toList) : c.isLower = false := by
  rw [padded, String.toList_ofList, List.leftpad, List.mem_append] at hc
  rcases hc with hc | hc
  · rw [List.eq_of_mem_replicate hc]
    rfl
  · obtain ⟨d, -, rfl⟩ := List.mem_map.mp hc
    exact isLower_toUpper d

theorem length_padded (width number : Nat) :
    (padded width number).length = max width (digits number).length := by
  rw [← String.length_toList, padded, String.toList_ofList, List.length_leftpad]

theorem head?_digits {number : Nat} (hpos : 0 < number) : (digits number).head? ≠ some '0' := by
  induction number using Nat.strongRecOn with
  | _ number ih =>
      rw [digits, Nat.toDigits_eq_if (by decide)]
      split
      · next hsmall =>
        have hdigit : ∀ digit < 16, 0 < digit → (Nat.digitChar digit).toUpper ≠ '0' := by decide
        simpa using hdigit number hsmall hpos
      · next hlarge =>
        have hbefore := ih (number / 16) (by omega) (by omega)
        rw [digits] at hbefore
        rw [List.map_append, List.head?_append_of_ne_nil _ (by simp [Nat.toDigits_ne_nil])]
        exact hbefore

theorem writes_padded {width : Nat} (hwidth : 0 < width) (number : Nat) :
    Writes width number (padded width number) := by
  constructor
  · exact (denotes_iff (by decide)).mpr (valueAfter?_padded width number)
  · exact fun c hc => isLower_of_mem_padded hc
  · rw [length_padded]
    exact le_max_left _ _
  · intro hlonger
    rw [length_padded] at hlonger
    have hlength : width < (digits number).length := by omega
    have hpos : 0 < number := by
      apply Nat.pos_of_ne_zero
      rintro rfl
      simp [digits] at hlength
      omega
    have htext : (padded width number).toList = digits number := by
      rw [padded, String.toList_ofList, List.leftpad, Nat.sub_eq_zero_of_le hlength.le]
      rfl
    rw [htext]
    exact head?_digits hpos

theorem length_padded_byte (byte : UInt8) : (padded 2 byte.toNat).length = 2 := by
  have hlength : (digits byte.toNat).length ≤ 2 := by
    rw [digits, List.length_map, Nat.length_toDigits_le_iff (by decide) (by decide)]
    exact byte.toNat_lt
  rw [length_padded]
  omega

theorem toList_bytes_cons (byte : UInt8) (values : List UInt8) :
    (bytes (byte :: values)).toList = (padded 2 byte.toNat).toList ++ (bytes values).toList := by
  simp [bytes]

theorem readBytes?_bytes (values : List UInt8) :
    readBytes? (bytes values).toList = some values := by
  induction values with
  | nil => rfl
  | cons byte values ih =>
      have hvalue := valueAfter?_padded 2 byte.toNat
      have hlength := length_padded_byte byte
      rw [← String.length_toList, List.length_eq_two] at hlength
      obtain ⟨high, low, hpair⟩ := hlength
      rw [hpair] at hvalue
      rw [toList_bytes_cons, hpair, List.cons_append, List.cons_append, List.nil_append, readBytes?,
        hvalue, ih]
      simp

theorem forall_mem_bytes {p : Char → Prop} {values : List UInt8}
    (h : ∀ byte : UInt8, ∀ c ∈ (padded 2 byte.toNat).toList, p c) :
    ∀ c ∈ (bytes values).toList, p c := by
  induction values with
  | nil => simp [bytes]
  | cons byte values ih =>
      intro c hc
      rw [toList_bytes_cons, List.mem_append] at hc
      rcases hc with hc | hc
      · exact h byte c hc
      · exact ih c hc

end StackAsm.Hexadecimal
