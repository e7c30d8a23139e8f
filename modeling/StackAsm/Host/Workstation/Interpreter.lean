import StackAsm.Host.Workstation.Station

/-!
Interpreter lines: the first lines of files that are run by another program, which they name.

Only the beginning of a file is looked at. A line that does not fit in there counts if at least the
name of the program is known to be complete. Blanks at the end of a line are left out, but if they
end the file instead they are followed by an empty argument.
-/

namespace StackAsm

structure Interpreter where
  path : String
  argument? : Option String
  deriving DecidableEq, Repr

namespace Interpreter

def window : Nat := 256

/-- A blank, which parts the words of the line. -/
def isGap (byte : UInt8) : Bool :=
  byte == 0x20 || byte == 0x09

def endsPath (byte : UInt8) : Bool :=
  isGap byte || byte == 0

/-- The bytes of a line, from behind its mark, if it is whole or at least the name in it is. -/
def line? (content : List UInt8) : Option (List UInt8) :=
  let seen := content.take window
  let filled := seen ++ List.replicate (window - seen.length) 0
  let body := filled.drop 2
  let whole := body.takeWhile fun byte => byte != Text.lineFeed && byte != 0
  if body[whole.length]? = some Text.lineFeed then some whole
  else if (body.dropWhile isGap).any endsPath then some body.dropLast
  else none

/-- Reads the interpreter line of a file, if it has one with a program in it. -/
def read? (content : List UInt8) : Option Interpreter :=
  match content with
  | 0x23 :: 0x21 :: _ =>
      match line? content with
      | none => none
      | some line =>
          let trimmed := (line.reverse.dropWhile isGap).reverse.dropWhile isGap
          if trimmed.isEmpty then none
          else
            let path := trimmed.takeWhile (!endsPath ·)
            let rest := trimmed.drop path.length
            let argument := (rest.dropWhile isGap).takeWhile (· != 0)
            some
              { path := Octets.ofBytes path
                argument? := if rest.head?.any isGap then some (Octets.ofBytes argument) else none }
  | _ => none

end Interpreter

end StackAsm
