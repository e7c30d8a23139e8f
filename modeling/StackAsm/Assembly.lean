import StackAsm.Scan
import StackAsm.Reading
import StackAsm.SymbolCheck
import StackAsm.Image

/-!
Assembling: from a program, or its source, to a laid out symbol table and an image. All that is
logged is in the order in which it comes up.
-/

namespace StackAsm

/-- A finished image with the symbols of its program. -/
structure Assembly where
  symbols : SymbolTable
  bytes : List UInt8
  deriving DecidableEq, Repr

namespace Program

/-- Resolves the names of a program that have been checked, and makes its image. -/
def build (program : Program) (table : SymbolTable) : Report Fault Assembly := do
  let resolutions ← (Resolutions.report program table).mapFault Fault.instruction
  let bytes ← (program.imageReport resolutions).mapFault Fault.instruction
  Report.log (.assembled (bytes.length / Record.width) bytes.length)
  return { symbols := table.layOut, bytes }

/-- Assembles a program. Its names are checked before any instruction is looked at. -/
def report (program : Program) : Report Fault Assembly := do
  Report.log (.assembling program.declarations.length)
  Report.logAll (SymbolTable.collectionEvents program)
  let table := SymbolTable.ofProgram program
  Report.logAll (table.checkEvents program)
  match table.check program with
  | [] => program.build table
  | faults => do
      Report.log .symbolsRejected
      .fail (.symbols faults)

def assemble (program : Program) : Except Fault Assembly :=
  program.report.result

/-- What is logged while a program is assembled. -/
def assemblyEvents (program : Program) : List Event :=
  program.report.events

/-- Reads the bytes of a source as a program. -/
def sourceReport (source : List UInt8) : Report Fault Program := do
  let tokens ← Scan.ofSource source
  Reading.ofTokens tokens

/-- What a source is read as. -/
def ofSource (source : List UInt8) : Except Fault Program :=
  (sourceReport source).result

/-- What is logged while a source is read. -/
def sourceEvents (source : List UInt8) : List Event :=
  (sourceReport source).events

end Program

namespace Assembly

/-- Assembles the bytes of a source. -/
def report (source : List UInt8) : Report Fault Assembly := do
  let program ← Program.sourceReport source
  program.report

/-- What a source is assembled to. -/
def ofSource (source : List UInt8) : Except Fault Assembly :=
  (report source).result

/-- What is logged while a source is assembled. -/
def events (source : List UInt8) : List Event :=
  (report source).events

end Assembly

end StackAsm
