/-!
Records, the units of an image: an operation byte and an operand of eight bytes.
-/

namespace StackAsm

/-- The bytes of a number of 64 bits, the most significant first. -/
def bigEndian (value : UInt64) : List UInt8 :=
  [ (value >>> 56).toUInt8, (value >>> 48).toUInt8, (value >>> 40).toUInt8, (value >>> 32).toUInt8,
    (value >>> 24).toUInt8, (value >>> 16).toUInt8, (value >>> 8).toUInt8, value.toUInt8 ]

/-- An instruction in its binary form. Operations without an argument have a zero operand. -/
structure Record where
  opcode : UInt8
  operand : UInt64
  deriving DecidableEq, Repr

namespace Record

def width : Nat := 9

def bytes (record : Record) : List UInt8 :=
  record.opcode :: bigEndian record.operand

@[simp]
theorem length_bytes (record : Record) : record.bytes.length = width :=
  rfl

end Record

end StackAsm
