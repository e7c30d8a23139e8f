import StackAsm.Resolutions
import StackAsm.InstructionSet

/-!
Images: one record for each instruction, in the order of the program.
-/

namespace StackAsm

namespace Encoding

/-- The byte of an operation whose argument refers to the given kind of symbol, if to any. A call
of a number is a call within the code. -/
def byte (encoding : Encoding) (kind : Option SymbolKind) : UInt8 :=
  match encoding, kind with
  | single byte, _ => byte
  | call _ native, some .native => native
  | call code _, _ => code

end Encoding

namespace Instruction

/-- The record of an instruction, given what its argument refers to if that is a symbol. -/
def encode (instruction : Instruction) (referent? : Option Referent) :
    Except InstructionFault Record :=
  let fault (cause : InstructionFault.Cause) : Except InstructionFault Record :=
    .error { line := instruction.line, cause }
  match Operation.find? instruction.mnemonic with
  | none => fault (.unknownMnemonic instruction.mnemonic)
  | some operation =>
      match instruction.argument with
      | none =>
          if operation.takesArgument then fault (.missingArgument instruction.mnemonic)
          else .ok { opcode := operation.encoding.byte none, operand := 0 }
      | some argument =>
          if operation.takesArgument then
            match argument with
            | .symbol name =>
                match referent? with
                | none => fault (.unresolved name)
                | some referent =>
                    .ok { opcode := operation.encoding.byte (some referent.kind)
                          operand := referent.value }
            | .literal literal =>
                match literal.bits with
                | .error cause => fault (.badLiteral cause)
                | .ok bits => .ok { opcode := operation.encoding.byte none, operand := bits }
          else fault (.unexpectedArgument instruction.mnemonic)

end Instruction

namespace Program

/-- Adds the record of an instruction to the image of those before it. -/
def emit (resolutions : Resolutions) (image : List UInt8) (placed : Position × Instruction) :
    Report InstructionFault (List UInt8) := do
  let (position, instruction) := placed
  let record ← Report.silent (instruction.encode (resolutions.get? position))
  Report.log (.emitted image.length instruction record)
  return image ++ record.bytes

/-- Makes the image of a program. It fails at the first instruction that has no record. -/
def imageReport (program : Program) (resolutions : Resolutions) :
    Report InstructionFault (List UInt8) :=
  program.instructions.foldlM (emit resolutions) []

def image (program : Program) (resolutions : Resolutions) : Except InstructionFault (List UInt8) :=
  (program.imageReport resolutions).result

/-- What is logged while an image is made. -/
def imageEvents (program : Program) (resolutions : Resolutions) : List Event :=
  (program.imageReport resolutions).events

end Program

/-- Cuts an image into records of bytes. The last one is short if the image ends within it. -/
def cutRecords : List UInt8 → List (List UInt8)
  | [] => []
  | byte :: bytes =>
      (byte :: bytes.take (Record.width - 1)) :: cutRecords (bytes.drop (Record.width - 1))
termination_by image => image.length
decreasing_by simp only [List.length_drop, List.length_cons]; omega

end StackAsm
