/-!
Hexadecimal digits for addresses, operands and bytes.
-/

namespace StackAsm.Hexadecimal

/-- The shortest upper case digits of a number. -/
def digits (value : Nat) : List Char :=
  (Nat.toDigits 16 value).map Char.toUpper

/-- Upper case digits, filled up with zeros on the left to at least the given width. -/
def padded (width value : Nat) : String :=
  String.ofList (List.leftpad width '0' (digits value))

/-- An address as the messages and the listing write it. -/
def address (value : Nat) : String :=
  "0x" ++ padded 8 value

/-- Two digits for each byte. -/
def bytes (values : List UInt8) : String :=
  String.join (values.map fun b => padded 2 b.toNat)

end StackAsm.Hexadecimal
