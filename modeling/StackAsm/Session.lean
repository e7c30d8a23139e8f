import StackAsm.Assembly

/-!
Sessions: the steps of assembling taken one at a time, over a program, a symbol table, resolutions
and a buffer of bytes that persist between them.

A step that fails leaves the program, the resolutions and the buffer as they were. Resolving lays
the table out even if a name turns out to be missing.
-/

namespace StackAsm

namespace Session

structure State where
  program : Program
  table : SymbolTable
  resolutions : Resolutions
  buffer : List UInt8
  deriving DecidableEq, Repr

def initial : State :=
  { program := { declarations := [] }
    table := SymbolTable.empty
    resolutions := Resolutions.empty
    buffer := [] }

inductive Step where
  /-- Reads a source as the program. -/
  | load (source : List UInt8)
  | setProgram (program : Program)
  /-- Collects the symbols of the program. -/
  | collectSymbols
  | addSection (symbol : SectionSymbol)
  | addNative (symbol : NativeSymbol)
  | layOut
  | imageSize
  | names
  | findSection (name : String)
  | findSymbol (name : String)
  | check
  | resolve
  | clearResolutions
  | insertResolution (position : Position) (referent : Referent)
  | getResolution (position : Position)
  /-- Makes the image of the program with the resolutions at hand. -/
  | makeImage
  /-- Assembles the program, whatever else the session holds. -/
  | assemble
  | writeByte (byte : UInt8)
  | writeNumber (value : UInt64)
  | takeBuffer
  deriving DecidableEq, Repr

inductive Answer where
  | program (program : Program)
  | table (table : SymbolTable)
  | size (bytes : UInt64)
  | names (names : List String)
  | foundSection (sec : Option SectionSymbol)
  | foundSymbol (referent : Option Referent)
  | checked (faults : List SymbolFault)
  /-- The resolutions, and what they hold at the positions of the program. -/
  | resolutions (size : Nat) (entries : List (Position × Option Referent))
  | resolution (referent : Option Referent)
  | bytes (bytes : List UInt8)
  | assembly (assembly : Assembly)
  | buffered (length : Nat)
  | failed (fault : Fault)
  deriving DecidableEq, Repr

def State.resolutionsAnswer (state : State) : Answer :=
  .resolutions state.resolutions.size
    (state.program.instructions.map fun (position, _) =>
      (position, state.resolutions.get? position))

def step (state : State) : Step → State × Answer
  | .load source =>
      match Program.ofSource source with
      | .ok program => ({ state with program }, .program program)
      | .error fault => (state, .failed fault)
  | .setProgram program => ({ state with program }, .program program)
  | .collectSymbols =>
      let table := SymbolTable.ofProgram state.program
      ({ state with table }, .table table)
  | .addSection symbol =>
      let table := { state.table with sections := state.table.sections ++ [symbol] }
      ({ state with table }, .table table)
  | .addNative symbol =>
      let table := { state.table with natives := state.table.natives ++ [symbol] }
      ({ state with table }, .table table)
  | .layOut =>
      let table := state.table.layOut
      ({ state with table }, .table table)
  | .imageSize => (state, .size state.table.imageSize)
  | .names => (state, .names state.table.names)
  | .findSection name => (state, .foundSection (state.table.section? name))
  | .findSymbol name => (state, .foundSymbol ((state.table.find? name).map Symbol.referent))
  | .check => (state, .checked (state.table.check state.program))
  | .resolve =>
      let laidOut := { state with table := state.table.layOut }
      match Resolutions.resolve state.program state.table with
      | .ok resolutions =>
          let resolved := { laidOut with resolutions }
          (resolved, resolved.resolutionsAnswer)
      | .error fault => (laidOut, .failed (.instruction fault))
  | .clearResolutions =>
      let cleared := { state with resolutions := Resolutions.empty }
      (cleared, cleared.resolutionsAnswer)
  | .insertResolution position referent =>
      let extended := { state with resolutions := state.resolutions.insert position referent }
      (extended, extended.resolutionsAnswer)
  | .getResolution position => (state, .resolution (state.resolutions.get? position))
  | .makeImage =>
      match state.program.image state.resolutions with
      | .ok bytes => (state, .bytes bytes)
      | .error fault => (state, .failed (.instruction fault))
  | .assemble =>
      match state.program.assemble with
      | .ok assembly => (state, .assembly assembly)
      | .error fault => (state, .failed fault)
  | .writeByte byte =>
      let buffer := state.buffer ++ [byte]
      ({ state with buffer }, .buffered buffer.length)
  | .writeNumber value =>
      let buffer := state.buffer ++ bigEndian value
      ({ state with buffer }, .buffered buffer.length)
  | .takeBuffer => ({ state with buffer := [] }, .bytes state.buffer)

/-- What is logged while a step is taken. -/
def events (state : State) : Step → List Event
  | .load source => Program.sourceEvents source
  | .collectSymbols => SymbolTable.collectionEvents state.program
  | .check => state.table.checkEvents state.program
  | .resolve => Resolutions.resolveEvents state.program state.table
  | .makeImage => state.program.imageEvents state.resolutions
  | .assemble => state.program.assemblyEvents
  | _ => []

def run (state : State) : List Step → State × List (Answer × List Event)
  | [] => (state, [])
  | next :: steps =>
      let (state', answer) := step state next
      let (final, answers) := run state' steps
      (final, (answer, events state next) :: answers)

end Session

end StackAsm
