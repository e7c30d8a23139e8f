import Mathlib
import StackAsm.Proofs.Numerals
import StackAsm.Proofs.Shapes

namespace StackAsm

namespace Numeral

theorem dropPlus_of_areDigits {radix : Nat} {text : List Char}
    (h : Literal.areDigits radix text = true) : dropPlus text = text := by
  unfold dropPlus
  split
  · next rest =>
    have hplus := (Literal.areDigits_iff.mp h).2 '+' List.mem_cons_self
    simp [isDigitOf, digitValue?] at hplus
  · rfl

end Numeral

namespace Literal

/-- The number that the digits of a hex literal denote, however great it is. -/
def hexValue? (text : String) : Option Nat :=
  Numeral.valueAfter? 16 0 (text.toList.drop 2)

theorem read_hex_iff {text : String} (h : text.toList ∈ Pattern.literal .hex) {limit number : Nat} :
    Numeral.read 16 limit (Numeral.dropPlus (afterMark text.toList)) = .ok number ↔
      hexValue? text = some number ∧ number ≤ limit := by
  rw [← hasShape_iff_mem, hasShape_hex_iff] at h
  obtain ⟨mark, digits, htext, hmark, hdigits⟩ := h
  have hafter : afterMark ('0' :: mark :: digits) = digits := by
    rcases hmark with rfl | rfl <;> rfl
  rw [hexValue?, htext, hafter, Numeral.dropPlus_of_areDigits hdigits]
  exact Numeral.read_eq_ok_iff (by decide) (areDigits_iff.mp hdigits).1

theorem bits_hex {text : String} (h : text.toList ∈ Pattern.literal .hex) {number : Nat}
    (hnumber : hexValue? text = some number) (hlimit : number < UInt64.size) :
    bits { kind := .hex, text } = .ok (UInt64.ofNat number) := by
  have hread := (read_hex_iff h).mpr ⟨hnumber, Nat.le_pred_of_lt hlimit⟩
  change Except.mapError _ (radixBits 16 text.toList) = _
  rw [radixBits, Nat.sub_one, hread]
  rfl

section Padded

variable (width number : Nat)

theorem toList_padded :
    ("0x" ++ Hexadecimal.padded width number).toList =
      '0' :: 'x' :: (Hexadecimal.padded width number).toList := by
  rw [String.toList_append]
  rfl

theorem padded_mem_literal :
    ("0x" ++ Hexadecimal.padded width number).toList ∈ Pattern.literal .hex := by
  rw [toList_padded, ← hasShape_iff_mem, hasShape_hex_iff]
  exact ⟨'x', _, rfl, .inl rfl, areDigits_iff.mpr
    ⟨Hexadecimal.padded_ne_nil width number, Hexadecimal.isDigitOf_padded width number⟩⟩

theorem hexValue?_padded :
    hexValue? ("0x" ++ Hexadecimal.padded width number) = some number := by
  rw [hexValue?, toList_padded]
  exact Hexadecimal.valueAfter?_padded width number

end Padded

end Literal

end StackAsm
