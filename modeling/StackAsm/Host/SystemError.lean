/-!
The ways in which a request to the operating system fails.
-/

namespace StackAsm

/-- Why the operating system did not do what it was asked for. -/
inductive SystemError where
  | noEntry
  | permissionDenied
  | notExecutableFormat
  | busy
  | exists
  | notDirectory
  | isDirectory
  | invalid
  | nameTooLong
  | notEmpty
  | tooManyLevels
  | readOnly
  /-- A write that accepted none of the bytes it was given. -/
  | nothingWritten
  /-- Any other failure, in the words of the system. -/
  | other (text : String)
  deriving DecidableEq, Repr

namespace SystemError

/-- What a system error is called. -/
def description : SystemError → String
  | noEntry => "No such file or directory"
  | permissionDenied => "Permission denied"
  | notExecutableFormat => "Exec format error"
  | busy => "Device or resource busy"
  | .exists => "File exists"
  | notDirectory => "Not a directory"
  | isDirectory => "Is a directory"
  | invalid => "Invalid argument"
  | nameTooLong => "File name too long"
  | notEmpty => "Directory not empty"
  | tooManyLevels => "Too many levels of symbolic links"
  | readOnly => "Read-only file system"
  | nothingWritten => "failed to write whole buffer"
  | other text => text

/-- The number of a system error in the system's list. -/
def number? : SystemError → Option Nat
  | noEntry => some 2
  | notExecutableFormat => some 8
  | permissionDenied => some 13
  | busy => some 16
  | .exists => some 17
  | notDirectory => some 20
  | isDirectory => some 21
  | invalid => some 22
  | readOnly => some 30
  | nameTooLong => some 36
  | notEmpty => some 39
  | tooManyLevels => some 40
  | nothingWritten | other _ => none

/-- The description of an error that has a number in the system's list. -/
def numbered (text : String) (number : Nat) : String :=
  text ++ " (os error " ++ toString number ++ ")"

/-- The wording of a system error. -/
def message (error : SystemError) : String :=
  match error.number? with
  | some number => numbered error.description number
  | none => error.description

end SystemError

end StackAsm
