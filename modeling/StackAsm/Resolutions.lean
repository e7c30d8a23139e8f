import StackAsm.Report
import StackAsm.SymbolTable

/-!
Resolutions: what the instructions of a program refer to, by their positions.
-/

namespace StackAsm

/-- A finite map from positions to referents. Of two entries for one position the first counts. -/
structure Resolutions where
  entries : List (Position × Referent)
  deriving DecidableEq, Repr

namespace Resolutions

def empty : Resolutions :=
  { entries := [] }

def get? (resolutions : Resolutions) (position : Position) : Option Referent :=
  (resolutions.entries.find? (·.1 = position)).map Prod.snd

/-- Stores a referent at a position, in the place of what was there. -/
def insert (resolutions : Resolutions) (position : Position) (referent : Referent) : Resolutions :=
  { entries := (position, referent) :: resolutions.entries.filter (·.1 ≠ position) }

def size (resolutions : Resolutions) : Nat :=
  resolutions.entries.length

@[simp]
theorem get?_empty (position : Position) : empty.get? position = none :=
  rfl

theorem get?_insert (resolutions : Resolutions) (position other : Position) (referent : Referent) :
    (resolutions.insert position referent).get? other =
      if other = position then some referent else resolutions.get? other := by
  by_cases same : position = other
  · subst same
    simp [get?, insert]
  · simp only [get?, insert, List.find?_cons, same, decide_false, List.find?_filter, Ne.symm same,
      if_false]
    congr
    funext entry
    by_cases found : entry.1 = other
    · simp [found, Ne.symm same]
    · simp [found]

/-- Looks up the name that an instruction refers to. -/
def resolveReference (table : SymbolTable) (reference : Position × Instruction × String) :
    Except InstructionFault (Position × Referent) :=
  let (position, instruction, name) := reference
  match table.find? name with
  | some symbol => .ok (position, symbol.referent)
  | none => .error { line := instruction.line, cause := .unresolved name }

/-- Looks up the name that an instruction refers to, and logs what it is. -/
def referenceReport (table : SymbolTable) (reference : Position × Instruction × String) :
    Report InstructionFault (Position × Referent) := do
  let entry ← Report.silent (resolveReference table reference)
  Report.log (.resolved reference.2.2 entry.2.value)
  return entry

/-- Resolves all names that a program uses, with the sections of the table laid out anew. It fails
at the first name that is not in the table. -/
def report (program : Program) (table : SymbolTable) : Report InstructionFault Resolutions := do
  let entries ← program.references.mapM (referenceReport table.layOut)
  return { entries }

def resolve (program : Program) (table : SymbolTable) : Except InstructionFault Resolutions :=
  (report program table).result

/-- What is logged while names are resolved. -/
def resolveEvents (program : Program) (table : SymbolTable) : List Event :=
  (report program table).events

end Resolutions

end StackAsm
