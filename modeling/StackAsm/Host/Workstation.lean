import StackAsm.Command.Assembler
import StackAsm.Command.Launcher
import StackAsm.Host.Workstation.Interpreter
import StackAsm.Host.Workstation.Shell

/-!
Workstations: simulated machines on which the assembler, the launcher, a shell and some utilities
are installed, so that command lines can be run on them from beginning to end.
-/

namespace StackAsm.Workstation

def toolDirectory : List String := ["opt", "stack-machine", "bin"]

def workDirectory : List String := ["srv", "stack-machine", "work"]

def commonDirectories : List (List String) := [["bin"], ["usr", "bin"]]

/-- The program that runs another one in a changed environment. -/
def environmentProgram : String := "env"

def shellNames : List String := ["sh", "dash"]

/-- The content of an installed program. It does not matter, since a program is known by its path.
-/
def programContent : List UInt8 := [0x7F, 0x45, 0x4C, 0x46]

def outputDevice : List String := ["dev", "stdout"]

/-- The file tree of a workstation before the user's files are put in. -/
def systemTree : FileTree :=
  let names := environmentProgram :: shellNames ++ Utility.all.map Prod.fst
  let programs := commonDirectories.flatMap fun directory =>
    names.map fun name => directory ++ [name]
  let tools := [Assembler.target, Launcher.target].map fun name => toolDirectory ++ [name]
  let devices := outputDevice :: Station.devices.map Prod.fst
  let entries : List (List String × Node) :=
    (programs ++ tools).map (·, .file programContent true) ++
      devices.map (·, .file [] false) ++ [(["tmp"], .directory), (workDirectory, .directory)]
  entries.foldl (fun tree (path, node) => tree.install path node) FileTree.empty

/-- A workstation with some files of the user's, by their paths below the working directory, and
the given variables in the environment. -/
def withFiles (clock : String) (environment : List (String × String))
    (files : List (List String × Node)) : Machine :=
  { tree :=
      files.foldl (fun tree (path, node) => tree.install (workDirectory ++ path) node) systemTree
    working := workDirectory
    output := []
    refusal? := none
    clock
    environment }

/-- The user's files that are there, by their paths below the working directory. -/
def files (machine : Machine) : List (List String × List UInt8) :=
  machine.tree.entries.filterMap fun (path, node) =>
    match node with
    | .file content _ =>
        if workDirectory.isPrefixOf path then some (path.drop workDirectory.length, content)
        else none
    | .directory => none

/-! ### The assembler -/

/-- Answers a request of the assembler. What is added to the log goes to standard output if that is
the file of the log. -/
def answerAssembler (machine : Machine) : (request : FileRequest) → request.Reply × Machine
  | .appendLog path text =>
      match (machine.tree.find machine.working path).map Prod.fst with
      | .ok location =>
          if location = outputDevice then ((), (machine.print (Text.encode text)).2)
          else if (Station.devices.lookup location).isSome then ((), machine)
          else machine.answerFile (.appendLog path text)
      | .error _ => ((), machine)
  | request => machine.answerFile request

def assemble (machine : Machine) (arguments : List (List UInt8)) : Nat × Machine :=
  (Assembler.program (CommandLine.read Assembler.switches) arguments).simulate answerAssembler
    machine

def runAssembler (machine : Machine) (arguments : List String) : Nat × Machine :=
  assemble machine (arguments.map Text.encode)

/-- Runs the assembler for another program, with the standard output of that. -/
def assembleFor (call : Call) : Activity ExitStatus := do
  let target ←
    match call.descriptors.lookup 1 with
    | none => pure .void
    | some channel => Station.channel channel
  let before := (← get).machine
  let refusal? := if target = .full then some Channel.fullError else none
  let (code, after) :=
    assemble { before with output := [], refusal? } (call.arguments.map Octets.bytes)
  modify fun station =>
    let machine := { after with output := before.output, refusal? := before.refusal? }
    { station with machine }
  let _ ← call.printBytes after.output
  return .exited code

/-! ### Files that can be run -/

/-- Runs the first executable file of a name in some directories. An empty directory is the working
directory. -/
def launchFrom (launch : Launch) (call : Call) (denied : Bool) :
    List String → Activity (Except SystemError ExitStatus)
  | [] => return .error (if denied then .permissionDenied else .noEntry)
  | directory :: directories => do
      let path := if directory.isEmpty then call.name else directory ++ "/" ++ call.name
      match ← launch path call with
      | .error .noEntry | .error .notDirectory => launchFrom launch call denied directories
      | .error .permissionDenied => launchFrom launch call true directories
      | outcome => return outcome

/-- Runs a program by its name: at a path if it has a slash, and otherwise where programs are
looked for. -/
def launchNamed (launch : Launch) (directories : List String) (call : Call) :
    Activity (Except SystemError ExitStatus) :=
  if call.name.isEmpty then return .error .noEntry
  else if call.name.toList.contains '/' then launch call.name call
  else launchFrom launch call false directories

/-- Runs a command in an environment to which the assignments in front of it are added. -/
def runEnvironment (launch : Launch) (call : Call) : Activity ExitStatus := do
  let assignments := call.arguments.takeWhile (·.toList.contains '=')
  let added := assignments.map fun assignment =>
    let (name, value) := assignment.toList.span (· != '=')
    (String.ofList name, String.ofList (value.drop 1))
  let kept := call.environment.filter fun entry => (added.lookup entry.1).isNone
  let environment := kept ++ added
  match call.arguments.drop assignments.length with
  | [] =>
      let printed ← call.print
        (Utility.linesText (environment.map fun (name, value) => name ++ "=" ++ value))
      return .exited (Utility.codeOf printed)
  | name :: arguments =>
      let directories := ((environment.lookup "PATH").getD Machine.usualSearchPath).splitOn ":"
      match ← launchNamed launch directories { call with name, arguments, environment } with
      | .ok status => return status
      | .error error => return .exited (if error = .noEntry then 127 else 126)

def interpreterLimit : Nat := 5

/-- Runs the file at a location, which is executable. Behind a script stands its interpreter, which
gets the path of the script in front of the arguments. -/
def runFile (launch : Launch)
    (interpret : Interpreter → Call → Activity (Except SystemError ExitStatus))
    (location : List String) (content : List UInt8) (path : String) (call : Call) :
    Activity (Except SystemError ExitStatus) := do
  let name := location.getLast?.getD ""
  if location = toolDirectory ++ [Assembler.target] then return .ok (← assembleFor call)
  else if commonDirectories.contains location.dropLast ∧ content = programContent then
    if shellNames.contains name then return .ok (← Shell.program launch call)
    else if name = environmentProgram then return .ok (← runEnvironment launch call)
    else
      match Utility.all.lookup name with
      | some utility => return .ok (.exited (← utility call))
      | none => return .error .noEntry
  else
    match Interpreter.read? content with
    | none => return .error .notExecutableFormat
    | some interpreter =>
        if interpreter.path.isEmpty then return .error .permissionDenied
        else
          interpret interpreter
            { call with
              name := interpreter.path
              arguments := interpreter.argument?.toList ++ path :: call.arguments }

/-- Runs the file at a path, behind which some interpreters may stand. -/
def runPath (launch : Launch) : Nat → Launch
  | levels, path, call => do
      match ← Station.find path with
      | .error error => return .error error
      | .ok (_, .directory) | .ok (_, .file _ false) => return .error .permissionDenied
      | .ok (location, .file content true) =>
          runFile launch
            (fun interpreter call =>
              match levels with
              | 0 => return .error .tooManyLevels
              | levels + 1 => runPath launch levels interpreter.path call)
            location content path call

def processLimit : Nat := 60

/-- Runs the program at a path, in a working directory of its own. -/
def launch : Nat → Launch
  | 0, _, _ => return .error (.other "Resource temporarily unavailable")
  | depth + 1, path, call => do
      let working := (← get).machine.working
      let outcome ← runPath (launch depth) interpreterLimit path call
      modify fun station => { station with machine := { station.machine with working } }
      return outcome

/-! ### The launcher -/

def start (machine : Machine) (program argument : String) :
    Except SystemError ExitStatus × Machine :=
  let call : Call :=
    { name := Octets.ofText program
      arguments := [Octets.ofText argument]
      environment :=
        machine.environment.map fun (name, value) => (Octets.ofText name, Octets.ofText value)
      descriptors := Station.standardDescriptors }
  let directories := machine.searchPath.map Octets.ofText
  let (outcome, station) :=
    (launchNamed (launch processLimit) directories call).run (Station.ofMachine machine)
  (outcome, station.machine)

/-- Answers a request of the launcher. -/
def answer (machine : Machine) : (request : LaunchRequest) → request.Reply × Machine
  | .timeStamp => (machine.clock, machine)
  | .print text => machine.print (Text.encode text)
  | .pathExists path => ((machine.tree.find machine.working path).toOption.isSome, machine)
  | .canonicalPath path =>
      ((machine.tree.find machine.working path).map fun (location, _) => FileTree.pathText location,
        machine)
  | .start program argument => start machine program argument

/-- Runs the launcher on a command line of texts, where the environment may name an executor. -/
def runLauncher (machine : Machine) (arguments : List String) : Nat × Machine :=
  let executor? := (machine.environment.lookup "SLIM_EXECUTOR").map Text.encode
  let companion := FileTree.pathText (toolDirectory ++ [Assembler.target])
  (Launcher.program (CommandLine.read (Launcher.switches executor?)) companion
    (arguments.map Text.encode)).simulate answer machine

end StackAsm.Workstation
