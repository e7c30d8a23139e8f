/-!
Unsigned numerals in a fixed radix, read from left to right against a limit.

A reader stops at its first obstacle, so a text with an overlong number and a stray character is
out of range or malformed according to which of the two comes first.
-/

namespace StackAsm.Numeral

/-- Why a text does not name a number of the wanted range. -/
inductive Fault where
  | malformed
  | outOfRange
  deriving DecidableEq, Repr

/-- The value of a digit, letters of either case counting from ten. -/
def digitValue? (radix : Nat) (c : Char) : Option Nat :=
  let value :=
    if c.isDigit then c.toNat - '0'.toNat
    else if c.isLower then c.toNat - 'a'.toNat + 10
    else if c.isUpper then c.toNat - 'A'.toNat + 10
    else radix
  if value < radix then some value else none

/-- A character that is a digit of the radix. -/
def isDigitOf (radix : Nat) (c : Char) : Bool :=
  (digitValue? radix c).isSome

/-- Appends digits to the number read so far. A character is first looked at as a digit and only
then is the number compared with the limit. -/
def readDigits (radix limit : Nat) (value : Nat) : List Char → Except Fault Nat
  | [] => .ok value
  | c :: cs =>
      match digitValue? radix c with
      | none => .error .malformed
      | some d =>
          let next := value * radix + d
          if next ≤ limit then readDigits radix limit next cs else .error .outOfRange

/-- A numeral has at least one digit. -/
def read (radix limit : Nat) : List Char → Except Fault Nat
  | [] => .error .malformed
  | cs => readDigits radix limit 0 cs

/-- Drops one leading plus sign, if there is one. -/
def dropPlus : List Char → List Char
  | '+' :: cs => cs
  | cs => cs

/-- The number that a row of decimal digits denotes, without a limit. -/
def decimalValue (digits : List Char) : Nat :=
  digits.foldl (fun value c => value * 10 + (c.toNat - '0'.toNat)) 0

/-- The number that a text denotes if it is a row of decimal digits and nothing else. -/
def decimal? (text : String) : Option Nat :=
  let digits := text.toList
  if digits.isEmpty || !digits.all Char.isDigit then none else some (decimalValue digits)

/-- The number that a text denotes if it is a row of decimal digits, which may follow a minus
sign. -/
def signedDecimal? (text : String) : Option Int :=
  match text.toList with
  | '-' :: digits => (decimal? (String.ofList digits)).map fun magnitude => -(magnitude : Int)
  | _ => (decimal? text).map fun magnitude => (magnitude : Int)

end StackAsm.Numeral
