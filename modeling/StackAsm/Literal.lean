import StackAsm.Number.Decimal

/-!
Numeric literals as they are written in a source text, and the 64 bits that each stands for.

A literal keeps its text, so that messages can show it unaltered. The shapes tell which kind a
word of a source belongs to; the bits are defined for every text, whether or not it has the shape
of its kind.
-/

namespace StackAsm

/-- The four ways to write a number. -/
inductive LiteralKind where
  | decimal
  | hex
  | binary
  | float
  deriving DecidableEq, Repr

/-- A number as written, its radix mark included. -/
structure Literal where
  kind : LiteralKind
  text : String
  deriving DecidableEq, Repr

namespace Literal

/-- A literal that stands for no 64 bits, with the whole of its text. -/
structure Fault where
  cause : Numeral.Fault
  text : String
  deriving DecidableEq, Repr

namespace Fault

/-- The wording of a literal's fault. -/
def message (fault : Fault) : String :=
  match fault.cause with
  | .outOfRange => "literal `" ++ fault.text ++ "` does not fit in 64 bits"
  | .malformed => "malformed literal `" ++ fault.text ++ "`"

end Fault

/-- The text behind the radix mark, which is two bytes long whatever it holds. A text that is
shorter, or has no character boundary there, leaves nothing. -/
def afterMark : List Char → List Char
  | c :: d :: cs =>
      if c.utf8Size = 2 then d :: cs
      else if c.utf8Size = 1 && d.utf8Size = 1 then cs
      else []
  | _ => []

/-- Reads a signed decimal number: negative ones reach down to `-2 ^ 63` and are stored in two's
complement, the others are below `2 ^ 64`. -/
def decimalBits : List Char → Except Numeral.Fault UInt64
  | '-' :: cs =>
      (Numeral.read 10 (UInt64.size / 2) cs).map fun magnitude => -UInt64.ofNat magnitude
  | cs => (Numeral.read 10 (UInt64.size - 1) (Numeral.dropPlus cs)).map UInt64.ofNat

/-- Reads an unsigned number of a radix behind its mark. -/
def radixBits (radix : Nat) (text : List Char) : Except Numeral.Fault UInt64 :=
  (Numeral.read radix (UInt64.size - 1) (Numeral.dropPlus (afterMark text))).map UInt64.ofNat

/-- The spellings of values that are no numbers or not finite, after an optional sign and in
either case of letters. They read as numbers too great to be stored. -/
def isNonFinite (text : List Char) : Bool :=
  ["inf", "infinity", "nan"].contains (String.ofList ((Decimal.splitSign text).2.map Char.toLower))

/-- Reads a decimal numeral behind its mark as the nearest finite binary value. -/
def floatBits (text : List Char) : Except Numeral.Fault UInt64 :=
  let body := afterMark text
  match Decimal.ofText? body with
  | some decimal =>
      match decimal.binary64? with
      | some bits => .ok bits
      | none => .error .outOfRange
  | none => .error (if isNonFinite body then .outOfRange else .malformed)

/-- The 64 bits that a literal stands for. -/
def bits (literal : Literal) : Except Fault UInt64 :=
  let text := literal.text.toList
  let value :=
    match literal.kind with
    | .decimal => decimalBits text
    | .hex => radixBits 16 text
    | .binary => radixBits 2 text
    | .float => floatBits text
  value.mapError fun cause => { cause, text := literal.text }

/-- At least one character, all of them digits of the radix. -/
def areDigits (radix : Nat) (text : List Char) : Bool :=
  !text.isEmpty && text.all (Numeral.isDigitOf radix)

def hasShape (kind : LiteralKind) (word : List Char) : Bool :=
  match kind, word with
  | .hex, '0' :: mark :: text => (mark == 'x' || mark == 'X') && areDigits 16 text
  | .binary, '0' :: mark :: text => (mark == 'b' || mark == 'B') && areDigits 2 text
  | .float, '0' :: mark :: text => (mark == 'f' || mark == 'F') && (Decimal.ofText? text).isSome
  | .decimal, '-' :: text => areDigits 10 text
  | .decimal, text => areDigits 10 text
  | _, _ => false

/-- A word of a source as a literal. The shapes exclude each other, so their order is of no
account. -/
def ofWord? (word : String) : Option Literal :=
  [LiteralKind.hex, .binary, .float, .decimal].find? (hasShape · word.toList) |>.map fun kind =>
    { kind, text := word }

end Literal

end StackAsm
