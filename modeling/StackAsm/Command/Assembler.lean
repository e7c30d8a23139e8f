import StackAsm.Command.Arguments
import StackAsm.Command.ImageFile
import StackAsm.Listing
import StackAsm.Assembly

/-!
The command line of the assembler: it reads a source file and writes its image.
-/

namespace StackAsm.Assembler

inductive Key where
  | verbose
  | output
  | check
  | listing
  | log
  deriving DecidableEq, Repr

def switches : List (Switch Key) :=
  [ (Switch.flag .verbose (some 'v') []).repeatable,
    .valued .output (some 'o') [],
    .flag .check (some 'c') ["check"],
    .flag .listing (some 'd') ["dump", "show"],
    .valued .log (some 'l') ["log"] ]

/-- Why the assembler ends without success. -/
inductive Failure where
  | cannotOpen (path : String) (error : SystemError)
  | notAssembled (fault : Fault)
  | cannotWrite (path : String) (error : SystemError)
  deriving DecidableEq, Repr

def Failure.message : Failure → String
  | cannotOpen path error => "unable to open input file " ++ quoted path ++ ": " ++ error.message
  | notAssembled fault => fault.message
  | cannotWrite path error => "unable to write output file " ++ quoted path ++ ": " ++ error.message

def target : String := "slap"

/-- Where log records go: to standard output, and perhaps also to a file. -/
structure Logger where
  verbosity : Nat
  file? : Option String
  deriving DecidableEq, Repr

/-- Logs a record if it is severe enough, on standard output and then in the log file. It does not
matter whether it can be written there. -/
def log (logger : Logger) (record : LogRecord) : FileDialogue Unit := do
  if (Severity.ofVerbosity logger.verbosity).admits record.severity then
    let stamp ← Dialogue.perform FileRequest.timeStamp
    let text := stamp ++ record.line ++ "\n"
    let _ ← Dialogue.perform (FileRequest.print text)
    match logger.file? with
    | none => return ()
    | some path => Dialogue.perform (FileRequest.appendLog path text)

def logAll (logger : Logger) : List LogRecord → FileDialogue Unit
  | [] => return ()
  | record :: records => do
      log logger record
      logAll logger records

/-- A record of the assembler's command line. -/
def note (severity : Severity) (message : String) : LogRecord :=
  { target, severity, message }

/-- The record that shows what was asked for. It cannot be made of values that are no texts. -/
def commandNote? (line : CommandLine Key) : Option LogRecord := do
  let output? ← line.text? .output
  let input ← Text.decode? line.operand
  return note .debug <|
    "Arguments:\n\tVerbosity: " ++ (Severity.ofVerbosity (line.count .verbose)).name ++
      "\n\tCheck Only: " ++ toString (line.has .check) ++
      "\n\tOutfile: " ++ output?.getD "None" ++
      "\n\tInfile: " ++ input

/-- Logs what was asked for, if so much is logged. -/
def showCommand (logger : Logger) (line : CommandLine Key) :
    FileDialogue (Except (Stop Failure) Unit) := do
  if (Severity.ofVerbosity logger.verbosity).admits .debug then
    match commandNote? line with
    | none => return .error .panicked
    | some record =>
        log logger record
        return .ok ()
  else return .ok ()

/-- The record that shows where a section has been placed. -/
def placementNote (sec : SectionSymbol) : LogRecord :=
  note .info <|
    "section " ++ quoted sec.name ++ " at " ++ Hexadecimal.address sec.address.toNat

/-- Reads and assembles the input. -/
def assembleInput (logger : Logger) (input : String) :
    FileDialogue (Except Failure Assembly) := do
  match ← Dialogue.perform (FileRequest.openInput input) with
  | .error error => return .error (.cannotOpen input error)
  | .ok () =>
      log logger (note .info ("parsing file " ++ input))
      match ← Dialogue.perform (FileRequest.readInput input) with
      | .error error => return .error (.notAssembled (.unreadable (.system error)))
      | .ok source =>
          let report := Assembly.report source
          logAll logger (report.events.map Event.record)
          match report.result with
          | .error fault => return .error (.notAssembled fault)
          | .ok assembly => return .ok assembly

/-- Prints the listing if that is asked for. -/
def printListing (line : CommandLine Key) (assembly : Assembly) :
    FileDialogue (Except SystemError Unit) :=
  if line.has .listing then
    Dialogue.perform (FileRequest.print (Listing.ofImage assembly.bytes ++ "\n"))
  else return .ok ()

def writeOutput (logger : Logger) (path : String) (assembly : Assembly) :
    FileDialogue (Except Failure Unit) := do
  log logger (note .info ("writing output file " ++ path))
  match ← ImageFile.write path assembly.bytes with
  | .error error => return .error (.cannotWrite path error)
  | .ok () => return .ok ()

/-- Where the image goes. This is not known if a value is not a text. -/
def imagePath? (line : CommandLine Key) : Option String := do
  let input ← Text.decode? line.operand
  let output? ← line.text? .output
  return ImageFile.pathFor input output?

/-- Ends a run with the image, or without it if the source was only to be checked. -/
def finish (logger : Logger) (line : CommandLine Key) (assembly : Assembly) :
    FileDialogue (Except (Stop Failure) Unit) := do
  if line.has .check then
    log logger (note .info "check only, no output written")
    return .ok ()
  else
    match imagePath? line with
    | none => return .error .panicked
    | some path =>
        match ← writeOutput logger path assembly with
        | .error failure => return .error (.failed failure)
        | .ok () => return .ok ()

/-- Does what the command line asks for. A listing that cannot be printed is the end of the run. -/
def run (logger : Logger) (line : CommandLine Key) :
    FileDialogue (Except (Stop Failure) Unit) := do
  match Text.decode? line.operand with
  | none => return .error .panicked
  | some input =>
      match ← assembleInput logger input with
      | .error failure => return .error (.failed failure)
      | .ok assembly =>
          logAll logger (assembly.symbols.sections.map placementNote)
          match ← printListing line assembly with
          | .error _ => return .error .panicked
          | .ok () => finish logger line assembly

def openLog (logger : Logger) : FileDialogue (Except SystemError Unit) :=
  match logger.file? with
  | none => return .ok ()
  | some path => Dialogue.perform (FileRequest.openLog path)

/-- Runs with a log and returns the exit code. Without its log file the assembler does not begin to
work. -/
def runLogged (logger : Logger) (line : CommandLine Key) : FileDialogue Nat := do
  match ← openLog logger with
  | .error _ => return 1
  | .ok () =>
      match ← showCommand logger line with
      | .error _ => return Stop.panicCode
      | .ok () =>
          match ← run logger line with
          | .ok () => return 0
          | .error .panicked => return Stop.panicCode
          | .error (.failed failure) =>
              log logger (note .error ("fatal: " ++ failure.message))
              return 1

/-- The whole program: from arguments to an exit code. -/
def program (parser : CommandLine.Parser Key) (arguments : List (List UInt8)) : FileDialogue Nat :=
  match parser arguments with
  | .ended code => return code
  | .accepted line =>
      match line.text? .log with
      | none => return Stop.panicCode
      | some file? => runLogged { verbosity := line.count .verbose, file? } line

end StackAsm.Assembler
