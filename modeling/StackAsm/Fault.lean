import StackAsm.Program
import StackAsm.Host.SystemError

/-!
Everything that can be wrong with a source or a program, by cause, and the wording of each.
-/

namespace StackAsm

/-- The end of a message about a line. -/
def onLine (line : Nat) : String :=
  " on line " ++ toString line

/-- The beginning of a message about a line. -/
def atLine (line : Nat) : String :=
  "line " ++ toString line ++ ": "

/-- A name or literal in a message. -/
def quoted (text : String) : String :=
  "`" ++ text ++ "`"

/-- A word that is neither a keyword nor a name nor a number. -/
structure InvalidWord where
  word : String
  line : Nat
  deriving DecidableEq, Repr

def InvalidWord.message (fault : InvalidWord) : String :=
  "invalid token " ++ quoted fault.word ++ onLine fault.line

/-- What is wrong with a line of tokens. -/
inductive LineFault.Cause where
  /-- The line begins with a number. -/
  | strayLiteral (text : String)
  /-- A number stands in the place of a declared name. -/
  | literalForLabel (text : String)
  /-- A keyword stands in the place of a declared name. -/
  | keywordForLabel
  | missingLabel
  | trailingToken
  /-- The number of a native routine is not below `2 ^ 32`. -/
  | wideIdentifier (text : String)
  /-- Something else than a hex literal stands in the place of a native routine's number. -/
  | identifierNotHex
  | missingIdentifier
  | unknownMnemonic (word : String)
  | keywordForArgument
  | argumentRequired (mnemonic : String)
  | argumentRefused (mnemonic : String)
  | badLiteral (fault : Literal.Fault)
  | outsideSection (instruction : Instruction)
  deriving DecidableEq, Repr

/-- A fault of a line of tokens. -/
structure LineFault where
  line : Nat
  cause : LineFault.Cause
  deriving DecidableEq, Repr

def LineFault.message (fault : LineFault) : String :=
  let place := onLine fault.line
  match fault.cause with
  | .strayLiteral text => "unexpected numeric literal " ++ quoted text ++ place
  | .literalForLabel text => "expected a label" ++ place ++ ", got literal " ++ quoted text
  | .keywordForLabel => "expected a label" ++ place ++ ", got a keyword"
  | .missingLabel => "expected a label" ++ place
  | .trailingToken => "unexpected trailing token" ++ place
  | .wideIdentifier text =>
      "native identifier " ++ quoted text ++ place ++ " does not fit in 32 bits"
  | .identifierNotHex => "native identifier" ++ place ++ " must be a hex literal"
  | .missingIdentifier => "expected a native identifier" ++ place
  | .unknownMnemonic word => "unknown mnemonic " ++ quoted word ++ place
  | .keywordForArgument => "unexpected keyword in argument position" ++ place
  | .argumentRequired mnemonic => mnemonic ++ place ++ " requires an argument"
  | .argumentRefused mnemonic => mnemonic ++ place ++ " takes no argument"
  | .badLiteral literal => literal.message ++ place
  | .outsideSection instruction =>
      "instruction " ++ quoted instruction.text ++ place ++ " is outside of a section"

/-- The name of the section at which execution begins. -/
def entryName : String := "main"

/-- A violated rule about the names of a program. -/
inductive SymbolFault where
  | missingEntry
  | duplicateName (name : String)
  | unknownSymbol (name : String) (line : Nat)
  | jumpToNative (name mnemonic : String) (line : Nat)
  deriving DecidableEq, Repr

def SymbolFault.message : SymbolFault → String
  | missingEntry => "no entry section: a section named " ++ quoted entryName ++ " is required"
  | duplicateName name => "duplicate symbol name " ++ quoted name
  | unknownSymbol name line => atLine line ++ "unknown symbol " ++ quoted name
  | jumpToNative name mnemonic line =>
      atLine line ++ "cannot jump to native symbol " ++ quoted name ++ " with " ++ mnemonic

/-- Why an instruction has no record. -/
inductive InstructionFault.Cause where
  | unknownMnemonic (mnemonic : String)
  | missingArgument (mnemonic : String)
  | unexpectedArgument (mnemonic : String)
  | badLiteral (fault : Literal.Fault)
  | unresolved (name : String)
  deriving DecidableEq, Repr

/-- An instruction that has no record. -/
structure InstructionFault where
  line : Nat
  cause : InstructionFault.Cause
  deriving DecidableEq, Repr

def InstructionFault.message (fault : InstructionFault) : String :=
  atLine fault.line ++
    match fault.cause with
    | .unknownMnemonic mnemonic => "no opcode definition for mnemonic " ++ quoted mnemonic
    | .missingArgument mnemonic => mnemonic ++ " requires an argument"
    | .unexpectedArgument mnemonic => mnemonic ++ " takes no argument"
    | .badLiteral literal => literal.message
    | .unresolved name => "reference to " ++ quoted name ++ " was never resolved"

/-- Why a source could not be read as text. -/
inductive ReadFault where
  | notUtf8
  | system (error : SystemError)
  deriving DecidableEq, Repr

def ReadFault.message : ReadFault → String
  | notUtf8 => "stream did not contain valid UTF-8"
  | system error => error.message

/-- Why there is no image of a source. -/
inductive Fault where
  | unreadable (cause : ReadFault)
  /-- Some lines are not well formed. Each of them has been reported. -/
  | malformedLines (count : Nat)
  | symbols (faults : List SymbolFault)
  | instruction (fault : InstructionFault)
  deriving DecidableEq, Repr

def Fault.message : Fault → String
  | unreadable cause => "IO error: " ++ cause.message
  | malformedLines count => "stopped assembly due to " ++ toString count ++ " syntax error(s)"
  | symbols faults => "symbol validation failed with " ++ toString faults.length ++ " error(s)"
  | instruction fault => fault.message

end StackAsm
