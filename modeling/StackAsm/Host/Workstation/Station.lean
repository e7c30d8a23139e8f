import StackAsm.Host.Machine
import StackAsm.Host.Workstation.Octets

/-!
Stations: machines on which several programs run, each of which reads from and writes to channels
that it shares with others.

A program knows a channel by the number of a descriptor. Since only one program runs at a time, the
bytes in a pipe are all there before they are read.
-/

namespace StackAsm

/-- Where bytes that are read come from, and where bytes that are written go to. -/
inductive Channel where
  /-- Nothing comes from it, and what goes to it is lost. -/
  | void
  /-- Nothing can be written to it. -/
  | full
  | output
  | pipe (content : List UInt8)
  /-- An open file. It is written at its position, or at its end if it was opened for that. -/
  | file (path : List String) (position : Nat) (appends : Bool)
  /-- A directory, which can be opened but not read. -/
  | directory
  deriving DecidableEq, Repr

namespace Channel

/-- The error of a channel to which nothing can be written. -/
def fullError : SystemError :=
  .other (SystemError.numbered "No space left on device" 28)

def remaining (machine : Machine) : Channel → Except SystemError (List UInt8)
  | void | full | output => .ok []
  | pipe content => .ok content
  | directory => .error .isDirectory
  | file path position _ =>
      match machine.tree.get? path with
      | some (.file content _) => .ok (content.drop position)
      | _ => .ok []

/-- The channel after all that remains in it has been read. -/
def exhausted (count : Nat) : Channel → Channel
  | pipe _ => .pipe []
  | file path position appends => .file path (position + count) appends
  | channel => channel

def write (machine : Machine) (bytes : List UInt8) : Channel → Channel × Machine
  | output => (.output, (machine.print bytes).2)
  | pipe content => (.pipe (content ++ bytes), machine)
  | file path position appends =>
      match machine.tree.get? path with
      | some (.file content executable) =>
          let start := if appends then content.length else position
          let gap := List.replicate (start - content.length) 0
          let written :=
            content.take start ++ gap ++ bytes ++ content.drop (start + bytes.length)
          (.file path (start + bytes.length) appends,
            { machine with tree := machine.tree.put path (.file written executable) })
      | _ => (.file path position appends, machine)
  | channel => (channel, machine)

end Channel

/-- A machine with the channels that have been opened on it, which are known by their numbers. -/
structure Station where
  machine : Machine
  channels : Array Channel
  deriving DecidableEq, Repr

/-- What programs do on a station. -/
abbrev Activity (α : Type) : Type :=
  StateM Station α

abbrev Descriptors : Type :=
  List (Nat × Nat)

inductive OpenMode where
  | reading
  | writing
  | appending
  deriving DecidableEq, Repr

namespace Station

/-- The descriptors that a program finds open when nothing has been redirected. -/
def standardDescriptors : Descriptors :=
  [(0, 0), (1, 1), (2, 2)]

/-- A station on which nothing has been opened. There is no input, and what is written on standard
error is lost. -/
def ofMachine (machine : Machine) : Station :=
  { machine, channels := #[.void, .output, .void] }

def devices : List (List String × Channel) :=
  [(["dev", "null"], .void), (["dev", "full"], .full)]

def onMachine {α : Type} (action : Machine → α × Machine) : Activity α :=
  modifyGet fun station =>
    let (result, machine) := action station.machine
    (result, { station with machine })

/-- Changes the tree, unless that fails. -/
def change (action : FileTree → List String → Except SystemError FileTree) :
    Activity (Except SystemError Unit) :=
  onMachine fun machine => machine.commit (action machine.tree machine.working)

def attach (channel : Channel) : Activity Nat :=
  modifyGet fun station =>
    (station.channels.size, { station with channels := station.channels.push channel })

def channel (number : Nat) : Activity Channel :=
  return (← get).channels.getD number .void

/-- Writes bytes to a channel, and tells whether that was possible. -/
def writeTo (number : Nat) (bytes : List UInt8) : Activity Bool := do
  match ← channel number with
  | .full => return bytes.isEmpty
  | target =>
      modify fun station =>
        if bytes.isEmpty then station
        else
          let (channel, machine) := target.write station.machine bytes
          { machine, channels := station.channels.setIfInBounds number channel }
      return true

def readAll (number : Nat) : Activity (Except SystemError (List UInt8)) :=
  modifyGet fun station =>
    let channel := station.channels.getD number .void
    match channel.remaining station.machine with
    | .error error => (.error error, station)
    | .ok bytes =>
        let channels := station.channels.setIfInBounds number (channel.exhausted bytes.length)
        (.ok bytes, { station with channels })

/-- What a path leads to, and where that is. -/
def find (path : String) : Activity (Except SystemError (List String × Node)) := do
  let machine := (← get).machine
  return machine.tree.find machine.working (Octets.toText path)

def openPath (path : String) (mode : OpenMode) : Activity (Except SystemError Nat) := do
  let found ← find path
  match found.toOption.bind fun (location, _) => devices.lookup location with
  | some device => return .ok (← attach device)
  | none =>
      let name := Octets.toText path
      let opened ←
        match mode with
        | .reading => pure (.ok ())
        | .writing => onMachine fun machine => machine.openForWriting name fun _ => []
        | .appending => onMachine fun machine => machine.openForWriting name id
      match opened, ← find path with
      | .error error, _ | .ok (), .error error => return .error error
      | .ok (), .ok (_, .directory) => return .ok (← attach .directory)
      | .ok (), .ok (location, .file _ _) =>
          return .ok (← attach (.file location 0 (mode = .appending)))

def isDirectory (path : String) : Activity Bool := do
  match ← find path with
  | .ok (_, .directory) => return true
  | _ => return false

/-- The names in a directory, in order. -/
def children (location : List String) : Activity (List String) := do
  let below := (← get).machine.tree.entries.filterMap fun (path, _) =>
    if path ≠ [] ∧ path.dropLast = location then path.getLast? else none
  return Octets.sorted (below.map Octets.ofText)

end Station

/-- What a program is given when it starts: the name under which it was called, its arguments, the
environment and the channels. All texts are octet texts. -/
structure Call where
  name : String
  arguments : List String
  environment : List (String × String)
  descriptors : Descriptors
  deriving DecidableEq, Repr

/-- A way to run the program at a path. -/
abbrev Launch : Type :=
  String → Call → Activity (Except SystemError ExitStatus)

namespace Call

/-- Prints bytes, and tells whether that was possible. -/
def printBytes (call : Call) (bytes : List UInt8) : Activity Bool :=
  match call.descriptors.lookup 1 with
  | none => return bytes.isEmpty
  | some channel => Station.writeTo channel bytes

def print (call : Call) (text : String) : Activity Bool :=
  call.printBytes (Octets.bytes text)

/-- Reads the file that an operand names, where a single dash stands for standard input. -/
def readOperand (call : Call) (operand : String) : Activity (Except SystemError (List UInt8)) := do
  if operand = "-" then
    match call.descriptors.lookup 0 with
    | none => return .error (.other "Bad file descriptor")
    | some channel => Station.readAll channel
  else
    match ← Station.openPath operand .reading with
    | .error error => return .error error
    | .ok channel => Station.readAll channel

end Call

end StackAsm
