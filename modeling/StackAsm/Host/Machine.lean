import StackAsm.Host.FileTree
import StackAsm.Host.Request
import StackAsm.Text.Lines

/-!
Simulated machines: a file tree, a working directory and what has been printed. They answer the
requests of programs in the way of an undisturbed system with room enough, so a write to a file
takes all the bytes it is offered. Only standard output may be a place that takes none.
-/

namespace StackAsm

/-- The state of a simulated machine. -/
structure Machine where
  tree : FileTree
  working : List String
  /-- The bytes that have come out on standard output. -/
  output : List UInt8
  /-- Why standard output refuses whatever is written to it, if it does. -/
  refusal? : Option SystemError
  /-- What the clock shows. -/
  clock : String
  /-- The variables of the environment in which command lines are given. -/
  environment : List (String × String)
  deriving DecidableEq, Repr

namespace Machine

/-- The directories in which programs are looked for if the environment names none. -/
def usualSearchPath : String :=
  "/usr/local/sbin:/usr/local/bin:/usr/sbin:/usr/bin:/sbin:/bin"

/-- The directories in which programs are looked for by name. An empty one is the working
directory. -/
def searchPath (machine : Machine) : List String :=
  ((machine.environment.lookup "PATH").getD usualSearchPath).splitOn ":"

/-- Prints bytes, unless standard output refuses them. -/
def print (machine : Machine) (bytes : List UInt8) : Except SystemError Unit × Machine :=
  match machine.refusal? with
  | none => (.ok (), { machine with output := machine.output ++ bytes })
  | some error => (.error error, machine)

/-- Replaces the tree by the outcome of a change to it, which is kept only if it succeeded. -/
def commit (machine : Machine) (outcome : Except SystemError FileTree) :
    Except SystemError Unit × Machine :=
  match outcome with
  | .ok tree => (.ok (), { machine with tree })
  | .error error => (.error error, machine)

/-- Opens a file for writing. -/
def openForWriting (machine : Machine) (path : String) (change : List UInt8 → List UInt8) :
    Except SystemError Unit × Machine :=
  machine.commit (machine.tree.openForWriting machine.working path change)

/-- Adds bytes to an open file. -/
def append (machine : Machine) (path : String) (bytes : List UInt8) : Machine :=
  { machine with tree := machine.tree.append machine.working path bytes }

/-- Answers a request about files. -/
def answerFile (machine : Machine) : (request : FileRequest) → request.Reply × Machine
  | .timeStamp => (machine.clock, machine)
  | .print text => machine.print (Text.encode text)
  | .openLog path => machine.openForWriting path id
  | .appendLog path text => ((), machine.append path (Text.encode text))
  | .openInput path => ((machine.tree.find machine.working path).map fun _ => (), machine)
  | .readInput path => (machine.tree.read machine.working path, machine)
  | .create path => machine.openForWriting path fun _ => []
  | .write path bytes => (.ok bytes.length, machine.append path bytes)
  | .synchronize _ => (.ok (), machine)
  | .rename path newPath => machine.commit (machine.tree.rename machine.working path newPath)
  | .remove path => machine.commit (machine.tree.remove machine.working path)

/-- Runs a program that works with files. -/
def runFiles {α : Type} (machine : Machine) (dialogue : FileDialogue α) : α × Machine :=
  dialogue.simulate answerFile machine

end Machine

end StackAsm
