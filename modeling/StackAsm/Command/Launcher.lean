import StackAsm.Command.Arguments
import StackAsm.Command.ImageFile
import StackAsm.Fault
import StackAsm.Log

/-!
The command line of the launcher, which does no work of its own: it hands a source to the
assembler, and an image to the executor.
-/

namespace StackAsm.Launcher

inductive Key where
  | assemble
  | run
  | assembler
  | executor
  | verbose
  deriving DecidableEq, Repr

/-- How the switches are written. The environment may stand in for the name of the executor. -/
def switches (executor? : Option (List UInt8)) : List (Switch Key) :=
  [ .flag .assemble (some 'a') [],
    .flag .run (some 'r') [],
    .valued .assembler none ["slap"],
    (Switch.valued .executor none ["slim"]).withFallback executor?,
    (Switch.flag .verbose (some 'v') []).repeatable ]

/-- The executor that is used when neither the command line nor the environment names one. -/
def usualExecutor : String := "slim"

/-- Why the launcher ends without success. -/
inductive Failure where
  | nothingToDo
  | missingFile (path : String)
  | wrongExtension (path extension : String)
  | cannotResolve (path : String) (error : SystemError)
  | cannotStart (program : String) (error : SystemError)
  | programFailed (program : String) (status : ExitStatus)
  deriving DecidableEq, Repr

def Failure.message : Failure → String
  | nothingToDo => "nothing to do, pass -a to assemble and/or -r to run"
  | missingFile path => "file " ++ quoted path ++ " does not exist"
  | wrongExtension path extension =>
      "file " ++ quoted path ++ " must be a ." ++ extension ++ " file"
  | cannotResolve path error => "unable to resolve " ++ quoted path ++ ": " ++ error.message
  | cannotStart program error => "unable to start " ++ quoted program ++ ": " ++ error.message
  | programFailed program status => quoted program ++ " failed with " ++ status.message

def target : String := "slang"

def sourceExtension : String := "slap"

/-- The least severe records that are logged. -/
def threshold : Nat → Severity
  | 0 => .info
  | 1 => .debug
  | _ => .trace

/-- Logs a message on standard output if it is severe enough. It does not matter whether it can be
written there. -/
def log (verbosity : Nat) (severity : Severity) (message : String) : LaunchDialogue Unit := do
  if (threshold verbosity).admits severity then
    let stamp ← Dialogue.perform LaunchRequest.timeStamp
    let record : LogRecord := { target, severity, message }
    let _ ← Dialogue.perform (LaunchRequest.print (stamp ++ record.line ++ "\n"))

/-- Makes sure that a file exists and has the wanted extension, and finds its absolute path. -/
def requireFile (file extension : String) : LaunchDialogue (Except Failure String) := do
  if ← Dialogue.perform (LaunchRequest.pathExists file) then
    if Path.extension? file = some extension then
      match ← Dialogue.perform (LaunchRequest.canonicalPath file) with
      | .error error => return .error (.cannotResolve file error)
      | .ok path => return .ok path
    else return .error (.wrongExtension file extension)
  else return .error (.missingFile file)

/-- Runs a program on a file and waits for its success. -/
def start (verbosity : Nat) (program file : String) : LaunchDialogue (Except Failure Unit) := do
  log verbosity .debug ("running " ++ program ++ " " ++ file)
  match ← Dialogue.perform (LaunchRequest.start program file) with
  | .error error => return .error (.cannotStart program error)
  | .ok status =>
      if status.success then return .ok () else return .error (.programFailed program status)

/-- Runs a program on a file that has the wanted extension, and returns the file's absolute path.
It ends on the spot if the name of the program is not a text. -/
def startOn (verbosity : Nat) (program? : Option String) (file extension : String) :
    LaunchDialogue (Except (Stop Failure) String) := do
  match program? with
  | none => return .error .panicked
  | some program =>
      match ← requireFile file extension with
      | .error failure => return .error (.failed failure)
      | .ok path =>
          match ← start verbosity program path with
          | .error failure => return .error (.failed failure)
          | .ok () => return .ok path

/-- The assembler: the one that the command line names, or else the one that comes with the
launcher. -/
def assemblerOf? (line : CommandLine Key) (companion : String) : Option String :=
  (line.text? .assembler).map (·.getD companion)

/-- The executor, which the command line may name. -/
def executorOf? (line : CommandLine Key) : Option String :=
  (line.text? .executor).map (·.getD usualExecutor)

/-- Assembles the file if that is asked for, and returns the path of the image to run. -/
def assembleStep (line : CommandLine Key) (companion file : String) :
    LaunchDialogue (Except (Stop Failure) String) := do
  if line.has .assemble then
    log (line.count .verbose) .info "assembling..."
    match ← startOn (line.count .verbose) (assemblerOf? line companion) file sourceExtension with
    | .error stop => return .error stop
    | .ok source => return .ok (Path.withExtension source ImageFile.extension)
  else return .ok file

/-- Runs an image if that is asked for. -/
def runStep (line : CommandLine Key) (image : String) :
    LaunchDialogue (Except (Stop Failure) Unit) := do
  if line.has .run then
    log (line.count .verbose) .info "running..."
    match ← startOn (line.count .verbose) (executorOf? line) image ImageFile.extension with
    | .error stop => return .error stop
    | .ok _ => return .ok ()
  else return .ok ()

/-- Does what the command line asks for: first to assemble, then to run. -/
def run (line : CommandLine Key) (companion file : String) :
    LaunchDialogue (Except (Stop Failure) Unit) := do
  if line.has .assemble || line.has .run then
    match ← assembleStep line companion file with
    | .error stop => return .error stop
    | .ok image => runStep line image
  else return .error (.failed .nothingToDo)

/-- Runs on a file and returns the exit code. -/
def runLogged (line : CommandLine Key) (companion file : String) : LaunchDialogue Nat := do
  match ← run line companion file with
  | .ok () => return 0
  | .error .panicked => return Stop.panicCode
  | .error (.failed failure) =>
      log (line.count .verbose) .error ("fatal: " ++ failure.message)
      return 1

/-- The whole program: from arguments to an exit code. Its companion is the assembler that comes
with it. -/
def program (parser : CommandLine.Parser Key) (companion : String)
    (arguments : List (List UInt8)) : LaunchDialogue Nat :=
  match parser arguments with
  | .ended code => return code
  | .accepted line =>
      match Text.decode? line.operand with
      | none => return Stop.panicCode
      | some file => runLogged line companion file

end StackAsm.Launcher
