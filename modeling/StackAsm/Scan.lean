import StackAsm.Text.Lines
import StackAsm.Token
import StackAsm.Report

/-!
Scanning: from the bytes of a source to its tokens.

Every line is scanned for itself. A line with a word of no class has one fault, for the first such
word, and contributes no tokens. Scanning ends before the first line that is not UTF-8.
-/

namespace StackAsm

namespace Scan

/-- The tokens of a line, or its first word that has no class. -/
def line (number : Nat) (text : String) : Except InvalidWord (List Token) :=
  (Text.words text).mapM fun word =>
    match Lexeme.ofWord? word with
    | some lexeme => .ok { lexeme, line := number }
    | none => .error { word, line := number }

/-- The end of a source: its tokens, unless some of its lines were faulty. -/
def finish (tokens : List Token) (faults : Nat) : Report Fault (List Token) :=
  if 0 < faults then do
    Report.log (.scanningStopped faults)
    .fail (.malformedLines faults)
  else do
    Report.log (.scanned tokens.length)
    return tokens

/-- Scans lines one after the other, the first of which has the given number. The lines before have
come to some tokens and to a number of faults. -/
def lines (number : Nat) (tokens : List Token) (faults : Nat) :
    List (List UInt8) → Report Fault (List Token)
  | [] => finish tokens faults
  | bytes :: later =>
      match Text.decode? bytes with
      | none => .fail (.unreadable .notUtf8)
      | some text =>
          match line number text with
          | .ok found => lines (number + 1) (tokens ++ found) faults later
          | .error fault => do
              Report.log (.invalidWord fault)
              lines (number + 1) tokens (faults + 1) later

/-- Scans a source. Its lines are counted from one. A source that is not UTF-8 is refused for that,
whatever else is wrong. -/
def ofSource (source : List UInt8) : Report Fault (List Token) :=
  lines 1 [] 0 (Text.lines source)

end Scan

end StackAsm
