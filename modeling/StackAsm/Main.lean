import Std.Time
import StackAsm.Command.Assembler
import StackAsm.Command.Launcher

/-!
The command line programs on a real machine. What they do is decided in their dialogues; here the
requests are passed on to the operating system and its errors are brought back.

One executable serves both programs and goes by the name it was started under. The launcher runs
the assembler that comes with it within its own process. It cannot start other programs.
-/

namespace StackAsm.Terminal

/-- The file handles that are open: that of the log file, and those of other files, the one opened
last first. -/
structure Handles where
  log? : Option IO.FS.Handle
  files : List (String × IO.FS.Handle)

/-- The system's number of an error. -/
def errorNumber? : IO.Error → Option UInt32
  | .alreadyExists _ number _ | .otherError number _ | .resourceBusy number _
  | .resourceVanished number _ | .unsupportedOperation number _ | .hardwareFault number _
  | .unsatisfiedConstraints number _ | .illegalOperation number _ | .protocolError number _
  | .timeExpired number _ | .interrupted _ number _ | .noFileOrDirectory _ number _
  | .invalidArgument _ number _ | .permissionDenied _ number _ | .resourceExhausted _ number _
  | .inappropriateType _ number _ | .noSuchThing _ number _ => some number
  | .unexpectedEof | .userError _ => none

/-- An error of the operating system. -/
def systemError (error : IO.Error) : SystemError :=
  match errorNumber? error with
  | some 2 => .noEntry
  | some 8 => .notExecutableFormat
  | some 13 => .permissionDenied
  | some 16 => .busy
  | some 17 => .exists
  | some 20 => .notDirectory
  | some 21 => .isDirectory
  | some 22 => .invalid
  | some 30 => .readOnly
  | some 36 => .nameTooLong
  | some 39 => .notEmpty
  | some 40 => .tooManyLevels
  | _ => .other (toString error)

/-- Does something that may fail. -/
def attempt {α : Type} (action : IO α) : IO (Except SystemError α) :=
  try
    return .ok (← action)
  catch error => return .error (systemError error)

/-- The time of day as log lines show it. -/
def timeStamp : IO String := do
  let now ← Std.Time.PlainDateTime.now
  return "[" ++ now.format "uuuu-MM-dd" ++ "][" ++ now.format "HH:mm:ss" ++ "]"

/-- Prints a text at once. -/
def print (text : String) : IO (Except SystemError Unit) :=
  attempt do
    let output ← IO.getStdout
    output.putStr text
    output.flush

/-- Opens the log file. -/
def openLog (handles : IO.Ref Handles) (path : String) : IO (Except SystemError Unit) :=
  attempt do
    let handle ← IO.FS.Handle.mk path .append
    handles.modify ({ · with log? := some handle })

/-- Adds a text to the log file. -/
def appendLog (handles : IO.Ref Handles) (text : String) : IO Unit := do
  match (← handles.get).log? with
  | none => return ()
  | some handle =>
      let _ ← attempt do
        handle.putStr text
        handle.flush
      return ()

/-- Opens another file. -/
def openFile (handles : IO.Ref Handles) (path : String) (mode : IO.FS.Mode) :
    IO (Except SystemError Unit) :=
  attempt do
    let handle ← IO.FS.Handle.mk path mode
    handles.modify fun held => { held with files := (path, handle) :: held.files }

/-- Works with the file that was last opened under a path. -/
def withFile {α : Type} (handles : IO.Ref Handles) (path : String) (action : IO.FS.Handle → IO α) :
    IO (Except SystemError α) := do
  match (← handles.get).files.lookup path with
  | none => return .error .noEntry
  | some handle => attempt (action handle)

/-- Passes on a request about files. -/
def answerFile (handles : IO.Ref Handles) : (request : FileRequest) → IO request.Reply
  | .timeStamp => timeStamp
  | .print text => print text
  | .openLog path => openLog handles path
  | .appendLog _ text => appendLog handles text
  | .openInput path => openFile handles path .read
  | .readInput path =>
      withFile handles path fun handle => return (← handle.readBinToEnd).data.toList
  | .create path => openFile handles path .write
  | .write path bytes => withFile handles path fun handle => do
      handle.write bytes.toByteArray
      return bytes.length
  | .synchronize path => withFile handles path fun handle => handle.flush
  | .rename path newPath => attempt (IO.FS.rename path newPath)
  | .remove path => attempt (IO.FS.removeFile path)

def runAssembler (arguments : List String) : IO Nat := do
  let handles ← IO.mkRef { log? := none, files := [] }
  (Assembler.program (CommandLine.read Assembler.switches) (arguments.map Text.encode)).run
    (answerFile handles)

/-- Passes on a request of the launcher, to which the given assembler belongs. -/
def answerLaunch (assembler : String) : (request : LaunchRequest) → IO request.Reply
  | .timeStamp => timeStamp
  | .print text => print text
  | .pathExists path => return (← attempt (IO.FS.realPath path)).toOption.isSome
  | .canonicalPath path => attempt (return (← IO.FS.realPath path).toString)
  | .start program argument => do
      if program = assembler then return .ok (.exited (← runAssembler [argument]))
      else return .error (.other (SystemError.numbered "Operation not permitted" 1))

def runLauncher (directory : String) (arguments : List String) : IO Nat := do
  let assembler := directory ++ "/" ++ Assembler.target
  let executor? ← IO.getEnv "SLIM_EXECUTOR"
  let switches := Launcher.switches (executor?.map Text.encode)
  (Launcher.program (CommandLine.read switches) assembler (arguments.map Text.encode)).run
    (answerLaunch assembler)

end StackAsm.Terminal

open StackAsm in
/-- Runs the program that the executable is named for, the assembler unless it is the launcher. -/
def main (arguments : List String) : IO UInt32 := do
  let executable ← IO.appPath
  let code ←
    if executable.fileStem = some Launcher.target then
      let directory := (executable.parent.map (·.toString)).getD "."
      Terminal.runLauncher directory arguments
    else Terminal.runAssembler arguments
  return UInt32.ofNat code
