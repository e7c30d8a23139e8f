import StackAsm.Text.Lines

/-!
Octet texts: texts in which every character stands for one byte. To a shell and the utilities around
it a text is a row of bytes, so their texts hold the characters below 256 only.
-/

namespace StackAsm.Octets

def ofBytes (bytes : List UInt8) : String :=
  String.ofList (bytes.map fun byte => Char.ofNat byte.toNat)

def bytes (octets : String) : List UInt8 :=
  octets.toList.map fun c => UInt8.ofNat c.toNat

/-- The octet text that encodes a text. -/
def ofText (text : String) : String :=
  ofBytes (Text.encode text)

/-- The text that an octet text encodes. One that encodes none is left as it is. -/
def toText (octets : String) : String :=
  (Text.decode? (bytes octets)).getD octets

/-- Texts from the least to the greatest. Texts and the bytes that encode them have the same order.
-/
def sorted (texts : List String) : List String :=
  texts.mergeSort fun a b => decide (a ≤ b)

end StackAsm.Octets
