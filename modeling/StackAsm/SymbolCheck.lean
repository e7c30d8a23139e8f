import StackAsm.Report
import StackAsm.SymbolTable
import StackAsm.InstructionSet

/-!
The rules about names: there is a section to begin with, no name is declared twice, every name
that is used is declared, and jumps stay within the code.

All violations are collected, so that a programmer sees every one of them at once.
-/

namespace StackAsm

namespace Instruction

/-- Whether an instruction jumps within the code. -/
def jumps (instruction : Instruction) : Bool :=
  (Operation.find? instruction.mnemonic).any Operation.jumps

end Instruction

namespace SymbolTable

/-- A program needs a section with the entry name. A native routine does not count. -/
def entryFaults (table : SymbolTable) : List SymbolFault :=
  if (table.section? entryName).isNone then [.missingEntry] else []

/-- The names that occur more than once, each once and in the order of their second occurrences.
The first argument holds the names that came before, in any order. -/
def repeatedAfter (seen : List String) : List String → List String
  | [] => []
  | name :: names =>
      if seen.count name = 1 then name :: repeatedAfter (name :: seen) names
      else repeatedAfter (name :: seen) names

/-- One fault for each name that is declared more than once. -/
def duplicateFaults (table : SymbolTable) : List SymbolFault :=
  (repeatedAfter [] table.names).map .duplicateName

/-- What is wrong with the use of a name in an instruction, if anything is. -/
def referenceFault? (table : SymbolTable) (instruction : Instruction) (name : String) :
    Option SymbolFault :=
  match table.find? name with
  | none => some (.unknownSymbol name instruction.line)
  | some (.code _) => none
  | some (.native _) =>
      if instruction.jumps then some (.jumpToNative name instruction.mnemonic instruction.line)
      else none

/-- The faults of all uses of names in a program. -/
def referenceFaults (table : SymbolTable) (program : Program) : List SymbolFault :=
  program.references.filterMap fun (_, instruction, name) => table.referenceFault? instruction name

/-- Everything that is wrong with the names of a program, if the table is taken for its symbols.
-/
def check (table : SymbolTable) (program : Program) : List SymbolFault :=
  table.entryFaults ++ table.duplicateFaults ++ table.referenceFaults program

/-- What is logged by a check. -/
def checkEvents (table : SymbolTable) (program : Program) : List Event :=
  (table.check program).map .symbolFault

end SymbolTable

end StackAsm
