import StackAsm.Host.Dialogue
import StackAsm.Host.SystemError

/-!
What the command line programs ask of the operating system.
-/

namespace StackAsm

/-- The requests of the assembler: the clock, standard output and files.

A file is named by its path in every request that concerns it. What is appended to a log goes to
the file that was opened as the log; what is read or written belongs to the file that was last
opened, in either of the two other ways, under the path. -/
inductive FileRequest where
  /-- The time of day, as it stands at the beginning of log lines. -/
  | timeStamp
  /-- Writes a text to standard output, which may refuse it. -/
  | print (text : String)
  /-- Opens a log file, which is made if it does not exist. -/
  | openLog (path : String)
  | appendLog (path text : String)
  | openInput (path : String)
  | readInput (path : String)
  /-- Opens a file for writing. It is made if it does not exist, and emptied if it does. -/
  | create (path : String)
  /-- Offers bytes to be written. The reply tells how many of them were taken. -/
  | write (path : String) (bytes : List UInt8)
  /-- Waits until all that was written is stored. -/
  | synchronize (path : String)
  | rename (path newPath : String)
  | remove (path : String)
  deriving DecidableEq, Repr

/-- The type of the replies to a request about files. -/
@[reducible]
def FileRequest.Reply : FileRequest → Type
  | timeStamp => String
  | appendLog _ _ => Unit
  | print _ | openLog _ | openInput _ | create _ | synchronize _ | rename _ _ | remove _ =>
      Except SystemError Unit
  | readInput _ => Except SystemError (List UInt8)
  | write _ _ => Except SystemError Nat

/-- A program that works with files. -/
abbrev FileDialogue (α : Type) : Type :=
  Dialogue FileRequest FileRequest.Reply α

/-- Why a program stops before its work is done. -/
inductive Stop (Failure : Type) where
  /-- It has failed, and goes on to tell why. -/
  | failed (failure : Failure)
  /-- It has met with something that it takes to be impossible, and ends on the spot. -/
  | panicked
  deriving DecidableEq, Repr

/-- The exit code of a program that has panicked. -/
def Stop.panicCode : Nat := 101

/-- How a program ended: with an exit code, or by a signal. -/
inductive ExitStatus where
  | exited (code : Nat)
  | signalled (number : Nat)
  deriving DecidableEq, Repr

namespace ExitStatus

/-- A program succeeds by ending with code zero. -/
def success (status : ExitStatus) : Bool :=
  status = exited 0

/-- The names of the signals that end a program. -/
def signalNames : List (Nat × String) :=
  [ (1, "SIGHUP"), (2, "SIGINT"), (3, "SIGQUIT"), (4, "SIGILL"), (5, "SIGTRAP"), (6, "SIGABRT"),
    (7, "SIGBUS"), (8, "SIGFPE"), (9, "SIGKILL"), (10, "SIGUSR1"), (11, "SIGSEGV"), (12, "SIGUSR2"),
    (13, "SIGPIPE"), (14, "SIGALRM"), (15, "SIGTERM"), (16, "SIGSTKFLT"), (24, "SIGXCPU"),
    (25, "SIGXFSZ"), (26, "SIGVTALRM"), (27, "SIGPROF"), (29, "SIGIO"), (30, "SIGPWR"),
    (31, "SIGSYS") ]

/-- The wording of how a program ended. -/
def message : ExitStatus → String
  | exited code => "exit status: " ++ toString code
  | signalled number =>
      "signal: " ++ toString number ++
        match signalNames.lookup number with
        | some name => " (" ++ name ++ ")"
        | none => ""

end ExitStatus

/-- The requests of the launcher: the clock, standard output, questions about paths, and the start
of other programs. -/
inductive LaunchRequest where
  | timeStamp
  | print (text : String)
  /-- Whether there is a file or directory at a path. -/
  | pathExists (path : String)
  /-- The absolute path of an entry. -/
  | canonicalPath (path : String)
  /-- Runs a program with one argument until it ends. -/
  | start (program argument : String)
  deriving DecidableEq, Repr

/-- The type of the replies to a request of the launcher. -/
@[reducible]
def LaunchRequest.Reply : LaunchRequest → Type
  | timeStamp => String
  | print _ => Except SystemError Unit
  | pathExists _ => Bool
  | canonicalPath _ => Except SystemError String
  | start _ _ => Except SystemError ExitStatus

/-- A program that starts other programs. -/
abbrev LaunchDialogue (α : Type) : Type :=
  Dialogue LaunchRequest LaunchRequest.Reply α

end StackAsm
