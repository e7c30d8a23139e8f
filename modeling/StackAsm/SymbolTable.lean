import StackAsm.Program
import StackAsm.Event

/-!
Symbol tables: the declared names of a program, the layout of its sections in the image, and what
a name stands for there.
-/

namespace StackAsm

/-- A section as a table knows it: its place among the sections, its length and where it begins.
-/
structure SectionSymbol where
  name : String
  index : Nat
  count : Nat
  address : UInt64
  deriving DecidableEq, Repr

/-- A native routine as a table knows it. -/
structure NativeSymbol where
  name : String
  identifier : UInt32
  deriving DecidableEq, Repr

inductive Symbol where
  | code (sec : SectionSymbol)
  | native (routine : NativeSymbol)
  deriving DecidableEq, Repr

/-- The two kinds of things that a name refers to. -/
inductive SymbolKind where
  | code
  | native
  deriving DecidableEq, Repr

/-- The operand that a reference to a name becomes, and the kind of what it refers to. -/
structure Referent where
  value : UInt64
  kind : SymbolKind
  deriving DecidableEq, Repr

/-- A symbol refers to the address of a section, or to the number of a native routine. -/
def Symbol.referent : Symbol → Referent
  | code sec => { value := sec.address, kind := .code }
  | native routine => { value := routine.identifier.toUInt64, kind := .native }

/-- The sections and native routines that have been declared, each in order. -/
structure SymbolTable where
  sections : List SectionSymbol
  natives : List NativeSymbol
  deriving DecidableEq, Repr

namespace SymbolTable

def empty : SymbolTable :=
  { sections := [], natives := [] }

/-- The symbols of a program. Addresses are zero until the sections are laid out. -/
def ofProgram (program : Program) : SymbolTable :=
  { sections := program.sections.zipIdx.map fun (sec, index) =>
      { name := sec.name, index, count := sec.instructions.length, address := 0 }
    natives := program.natives.map fun routine =>
      { name := routine.name, identifier := routine.identifier } }

/-- What is logged when the symbols of a program are collected: one event for each declaration. -/
def collectionEvents (program : Program) : List Event :=
  program.declarations.map fun declaration =>
    match declaration with
    | .code sec => .sectionCollected sec.name sec.instructions.length
    | .native routine => .nativeCollected routine.name routine.identifier

def names (table : SymbolTable) : List String :=
  table.sections.map SectionSymbol.name ++ table.natives.map NativeSymbol.name

def section? (table : SymbolTable) (name : String) : Option SectionSymbol :=
  table.sections.find? (·.name = name)

def native? (table : SymbolTable) (name : String) : Option NativeSymbol :=
  table.natives.find? (·.name = name)

/-- What a name refers to. A section hides a native routine of the same name. -/
def find? (table : SymbolTable) (name : String) : Option Symbol :=
  match table.section? name with
  | some sec => some (.code sec)
  | none => (table.native? name).map .native

/-- Places sections one behind the other from a start address. -/
def layOutFrom (start : UInt64) : List SectionSymbol → List SectionSymbol
  | [] => []
  | sec :: secs =>
      { sec with address := start } ::
        layOutFrom (start + UInt64.ofNat sec.count * UInt64.ofNat Record.width) secs

/-- Places all sections from the beginning of the image, whatever their addresses were. -/
def layOut (table : SymbolTable) : SymbolTable :=
  { table with sections := layOutFrom 0 table.sections }

/-- The number of instructions in some sections. -/
def totalCount (secs : List SectionSymbol) : UInt64 :=
  secs.foldl (fun total sec => total + UInt64.ofNat sec.count) 0

def imageSize (table : SymbolTable) : UInt64 :=
  totalCount table.sections * UInt64.ofNat Record.width

end SymbolTable

end StackAsm
