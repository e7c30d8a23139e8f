/-!
The characters that separate the words of a source line.
-/

namespace StackAsm.Text

/-- The characters with the property `White_Space` of the Unicode standard. -/
def whiteSpace : List (Nat × Nat) :=
  [ (0x0009, 0x000D), (0x0020, 0x0020), (0x0085, 0x0085), (0x00A0, 0x00A0), (0x1680, 0x1680),
    (0x2000, 0x200A), (0x2028, 0x2029), (0x202F, 0x202F), (0x205F, 0x205F), (0x3000, 0x3000) ]

/-- A white space character. -/
def isBlank (c : Char) : Bool :=
  whiteSpace.any fun (low, high) => low ≤ c.toNat && c.toNat ≤ high

/-- Commas separate words as white space does. -/
def isSeparator (c : Char) : Bool :=
  c == ',' || isBlank c

end StackAsm.Text
