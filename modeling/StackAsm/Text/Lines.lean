import StackAsm.Text.Blank

/-!
Sources as lines of words: bytes are split into lines, a line is decoded on its own, and what
stands before its comment is split into words.
-/

namespace StackAsm.Text

def lineFeed : UInt8 := 0x0A

/-- The lines of a file. What follows the last line feed is a line only if it is not empty. -/
def lines (bytes : List UInt8) : List (List UInt8) :=
  let pieces := bytes.splitOn lineFeed
  if pieces.getLast? = some [] then pieces.dropLast else pieces

/-- The bytes of a text in UTF-8. -/
def encode (text : String) : List UInt8 :=
  text.toUTF8.data.toList

/-- The text that bytes encode in UTF-8, if they do. -/
def decode? (bytes : List UInt8) : Option String :=
  String.fromUTF8? bytes.toByteArray

/-- The part of a line before its comment. -/
def code (line : List Char) : List Char :=
  line.takeWhile (· != ';')

/-- The words of a text: its longest runs without a separator. -/
def wordsOf (text : List Char) : List String :=
  ((text.splitOnP isSeparator).filter (!·.isEmpty)).map String.ofList

def words (line : String) : List String :=
  wordsOf (code line.toList)

end StackAsm.Text
