/-!
The instruction set of the stack machine: each operation with its byte code, whether it takes an
argument, and whether it jumps within the code.
-/

namespace StackAsm

/-- How an operation is told apart in an image. A call has one byte for a section and one for a
native routine; all other operations have a single byte. -/
inductive Encoding where
  | single (byte : UInt8)
  | call (code native : UInt8)
  deriving DecidableEq, Repr

/-- An operation of the machine. -/
structure Operation where
  mnemonic : String
  encoding : Encoding
  takesArgument : Bool
  jumps : Bool
  deriving DecidableEq, Repr

namespace Operation

/-- An operation without an argument. -/
def plain (mnemonic : String) (byte : UInt8) : Operation :=
  { mnemonic, encoding := .single byte, takesArgument := false, jumps := false }

/-- An operation on one argument. -/
def unary (mnemonic : String) (byte : UInt8) : Operation :=
  { mnemonic, encoding := .single byte, takesArgument := true, jumps := false }

/-- An operation that moves on to the code its argument names. -/
def jump (mnemonic : String) (byte : UInt8) : Operation :=
  { mnemonic, encoding := .single byte, takesArgument := true, jumps := true }

/-- The operation that calls a section or a native routine. -/
def call : Operation :=
  { mnemonic := "CALL", encoding := .call 0x60 0x62, takesArgument := true, jumps := false }

def all : List Operation :=
  [ plain "NOOP" 0x00, plain "HALT" 0x01,
    unary "LOADI" 0x10, unary "LOADR" 0x11, unary "LOADM" 0x12, plain "DROP" 0x13,
    unary "STORER" 0x14, plain "STOREM" 0x15,
    plain "DUP" 0x20, plain "SWAP" 0x21, plain "ROT" 0x22,
    plain "ADD" 0x30, plain "SUB" 0x31, plain "MUL" 0x32, plain "DIV" 0x33, plain "MOD" 0x34,
    plain "ADDF" 0x35, plain "SUBF" 0x36, plain "MULF" 0x37, plain "DIVF" 0x38, plain "MODF" 0x39,
    unary "ALLOC" 0x40, plain "FREE" 0x41,
    jump "JMP" 0x50, jump "JNE" 0x51, jump "JEQ" 0x52, plain "RET" 0x53,
    call,
    plain "FTOI" 0x70, plain "ITOF" 0x71, plain "ITOC" 0x72 ]

/-- Finds an operation by its mnemonic, in any mix of upper and lower case ASCII letters. -/
def find? (mnemonic : String) : Option Operation :=
  all.find? fun operation => operation.mnemonic.toLower = mnemonic.toLower

/-- The name that an operation's record has in a listing when it starts with the byte. A native
call has a name of its own there. -/
def nameOf? (operation : Operation) (byte : UInt8) : Option String :=
  match operation.encoding with
  | .single own => if byte = own then some operation.mnemonic else none
  | .call code native =>
      if byte = code then some operation.mnemonic
      else if byte = native then some (operation.mnemonic ++ "N")
      else none

/-- The name of the operation whose records start with the byte. -/
def mnemonicOf? (byte : UInt8) : Option String :=
  all.findSome? (nameOf? · byte)

end Operation

end StackAsm
