import StackAsm.Literal

/-!
Programs: sections of instructions and declarations of native routines, in the order of the
source.
-/

namespace StackAsm

/-- What an instruction works on: something that is declared under a name, or a number. -/
inductive Argument where
  | symbol (name : String)
  | literal (literal : Literal)
  deriving DecidableEq, Repr

/-- An instruction and the line it was written on. -/
structure Instruction where
  mnemonic : String
  argument : Option Argument
  line : Nat
  deriving DecidableEq, Repr

/-- A named run of instructions. -/
structure Section where
  name : String
  instructions : List Instruction
  line : Nat
  deriving DecidableEq, Repr

/-- A routine outside of the program, known to the machine by a number. -/
structure Native where
  name : String
  identifier : UInt32
  line : Nat
  deriving DecidableEq, Repr

/-- A declaration of either kind. -/
inductive Declaration where
  | code (sec : Section)
  | native (routine : Native)
  deriving DecidableEq, Repr

/-- A program is the list of its declarations. -/
structure Program where
  declarations : List Declaration
  deriving DecidableEq, Repr

/-- The place of an instruction: the index of its section among all declarations, natives
included, and its own index in the section. -/
structure Position where
  declaration : Nat
  instruction : Nat
  deriving DecidableEq, Repr

namespace Argument

def text : Argument → String
  | symbol name => name
  | literal value => value.text

/-- The name that the argument refers to, if it does. -/
def name? : Argument → Option String
  | symbol name => some name
  | literal _ => none

end Argument

namespace Instruction

/-- The instruction as it is written, without its line. -/
def text (instruction : Instruction) : String :=
  match instruction.argument with
  | none => instruction.mnemonic
  | some argument => instruction.mnemonic ++ " " ++ argument.text

/-- The name that the instruction refers to, if it has a symbol for an argument. -/
def symbol? (instruction : Instruction) : Option String :=
  instruction.argument.bind Argument.name?

end Instruction

namespace Declaration

def code? : Declaration → Option Section
  | code sec => some sec
  | native _ => none

def native? : Declaration → Option Native
  | code _ => none
  | native routine => some routine

/-- The instructions of a section. A native routine has none. -/
def instructions : Declaration → List Instruction
  | code sec => sec.instructions
  | native _ => []

end Declaration

namespace Program

def sections (program : Program) : List Section :=
  program.declarations.filterMap Declaration.code?

def natives (program : Program) : List Native :=
  program.declarations.filterMap Declaration.native?

/-- The instructions of a declaration with the given index, each at its position. -/
def placed (index : Nat) (declaration : Declaration) : List (Position × Instruction) :=
  declaration.instructions.zipIdx.map fun (instruction, i) =>
    ({ declaration := index, instruction := i }, instruction)

/-- All instructions with their positions, in the order in which they are emitted. -/
def instructions (program : Program) : List (Position × Instruction) :=
  program.declarations.zipIdx.flatMap fun (declaration, index) => placed index declaration

/-- The instructions that refer to a name, with that name. -/
def references (program : Program) : List (Position × Instruction × String) :=
  program.instructions.filterMap fun (position, instruction) =>
    instruction.symbol?.map fun name => (position, instruction, name)

end Program

end StackAsm
