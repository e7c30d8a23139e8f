import StackAsm.Literal

/-!
Tokens: the words of a source by class, each with the number of its line.
-/

namespace StackAsm

/-- What a word of a source is: one of the two keywords, a name or a number. -/
inductive Lexeme where
  | sectionKeyword
  | nativeKeyword
  | word (name : String)
  | number (literal : Literal)
  deriving DecidableEq, Repr

/-- A lexeme and the line it stands on. -/
structure Token where
  lexeme : Lexeme
  line : Nat
  deriving DecidableEq, Repr

namespace Lexeme

/-- A character that may begin a name. -/
def beginsName (c : Char) : Bool :=
  c.isAlpha || c == '_'

/-- A character that may stand in a name behind the first. -/
def continuesName (c : Char) : Bool :=
  c.isAlphanum || c == '_' || c == '.'

/-- The shape of names: ASCII letters, digits, underscores and dots, a letter or underscore first.
-/
def isName : List Char → Bool
  | [] => false
  | c :: cs => beginsName c && cs.all continuesName

/-- The keyword that opens a section. -/
def sectionText : String := "section"

/-- The keyword that declares a native routine. -/
def nativeText : String := "native"

/-- The lexeme that a word is, if it has one of the shapes. No literal begins like a name, so each
word has at most one class; keywords are written in lower case and are not names. -/
def ofWord? (word : String) : Option Lexeme :=
  if word = sectionText then some .sectionKeyword
  else if word = nativeText then some .nativeKeyword
  else
    match Literal.ofWord? word with
    | some literal => some (.number literal)
    | none => if isName word.toList then some (.word word) else none

end Lexeme

end StackAsm
