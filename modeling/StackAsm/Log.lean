/-!
Log records and their severities.
-/

namespace StackAsm

/-- How much a log record matters, the most severe first. -/
inductive Severity where
  | error
  | warn
  | info
  | debug
  | trace
  deriving DecidableEq, Repr

namespace Severity

/-- The name that log lines show. -/
def name : Severity → String
  | .error => "ERROR"
  | .warn => "WARN"
  | .info => "INFO"
  | .debug => "DEBUG"
  | .trace => "TRACE"

/-- The place in the order of severities. -/
def rank : Severity → Nat
  | .error => 1
  | .warn => 2
  | .info => 3
  | .debug => 4
  | .trace => 5

/-- A threshold lets through what is at least as severe as itself. -/
def admits (threshold severity : Severity) : Bool :=
  severity.rank ≤ threshold.rank

/-- The threshold of the assembler's command line after a number of requests for more detail. -/
def ofVerbosity : Nat → Severity
  | 0 => .error
  | 1 => .warn
  | 2 => .info
  | _ => .debug

end Severity

/-- A message with its severity and the part of the program that it comes from. -/
structure LogRecord where
  target : String
  severity : Severity
  message : String
  deriving DecidableEq, Repr

namespace LogRecord

/-- The record as a line of a log, behind its time stamp. -/
def line (record : LogRecord) : String :=
  "[" ++ record.target ++ "][" ++ record.severity.name ++ "] " ++ record.message

end LogRecord

end StackAsm
