import StackAsm.Fault
import StackAsm.Record
import StackAsm.Log
import StackAsm.Number.Hexadecimal

/-!
What the assembler reports while it works, event by event.
-/

namespace StackAsm

/-- Something worth a log record. -/
inductive Event where
  | invalidWord (fault : InvalidWord)
  | scanned (tokens : Nat)
  | scanningStopped (faults : Nat)
  | lineFault (fault : LineFault)
  | readingStopped (faults : Nat)
  | assembling (declarations : Nat)
  | sectionCollected (name : String) (instructions : Nat)
  | nativeCollected (name : String) (identifier : UInt32)
  | symbolFault (fault : SymbolFault)
  | symbolsRejected
  | resolved (name : String) (value : UInt64)
  | emitted (address : Nat) (instruction : Instruction) (record : Record)
  | assembled (instructions bytes : Nat)
  deriving DecidableEq, Repr

namespace Event

/-- The severity of an event. Everything that prevents an image is an error. -/
def severity : Event → Severity
  | invalidWord _ | scanningStopped _ | lineFault _ | readingStopped _ => .error
  | symbolFault _ | symbolsRejected => .error
  | assembling _ | resolved .. | assembled .. => .info
  | scanned _ | sectionCollected .. | nativeCollected .. | emitted .. => .debug

def message : Event → String
  | invalidWord fault => fault.message
  | scanned tokens => "lexed " ++ toString tokens ++ " token(s)"
  | scanningStopped faults => "stopped assembly due to " ++ toString faults ++ " lexer error(s)"
  | lineFault fault => fault.message
  | readingStopped faults => "stopped assembly due to " ++ toString faults ++ " parsing error(s)"
  | assembling declarations => "assembling " ++ toString declarations ++ " declaration(s)"
  | sectionCollected name instructions =>
      "tabulated section " ++ quoted name ++ " (" ++ toString instructions ++ " instruction(s))"
  | nativeCollected name identifier =>
      "tabulated native " ++ quoted name ++ " = " ++ Hexadecimal.address identifier.toNat
  | symbolFault fault => fault.message
  | symbolsRejected => "symbol validation failed"
  | resolved name value =>
      "resolved symbol '" ++ name ++ "' to address " ++ Hexadecimal.address value.toNat
  | emitted address instruction record =>
      Hexadecimal.address address ++ ": " ++ instruction.text ++ " => " ++
        Hexadecimal.padded 2 record.opcode.toNat ++ " " ++
        Hexadecimal.padded 16 record.operand.toNat
  | assembled instructions bytes =>
      "assembled " ++ toString instructions ++ " instruction(s) into " ++ toString bytes ++
        " byte(s)"

def assemblerTarget : String := "slap::assembler"

/-- The log target of the part of the assembler that an event belongs to. -/
def target : Event → String
  | invalidWord _ | scanned _ | scanningStopped _ => assemblerTarget ++ "::lexer"
  | lineFault _ | readingStopped _ => assemblerTarget ++ "::parser"
  | sectionCollected .. | nativeCollected .. => assemblerTarget ++ "::tabulator"
  | symbolFault _ => assemblerTarget ++ "::validator"
  | resolved .. => assemblerTarget ++ "::resolver"
  | emitted .. => assemblerTarget ++ "::codegen"
  | assembling _ | symbolsRejected | assembled .. => assemblerTarget

def record (event : Event) : LogRecord :=
  { target := event.target, severity := event.severity, message := event.message }

end Event

end StackAsm
