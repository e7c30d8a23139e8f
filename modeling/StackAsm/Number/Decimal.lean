import StackAsm.Number.Numeral
import StackAsm.Number.Binary64

/-!
Decimal numerals with a fraction and a power of ten: an optional sign, digits with at most one
point among, before or behind them, and an optional exponent.
-/

namespace StackAsm

/-- The rational `± digits * 10 ^ exponent`. -/
structure Decimal where
  negative : Bool
  digits : Nat
  exponent : Int
  deriving DecidableEq, Repr

namespace Decimal

/-- Splits off a sign; without one the number is positive. -/
def splitSign : List Char → Bool × List Char
  | '-' :: cs => (true, cs)
  | '+' :: cs => (false, cs)
  | cs => (false, cs)

/-- An exponent grows digit by digit until it has reached this bound. Further digits are then
without effect: only beside tens of thousands of digits could they bring a number into range. -/
def exponentBound : Nat := 65536

/-- The absolute value of an exponent from its digits. -/
def exponentMagnitude (digits : List Char) : Nat :=
  digits.foldl
    (fun value c => if value < exponentBound then value * 10 + (c.toNat - '0'.toNat) else value) 0

/-- What may follow the digits: nothing, or a signed power of ten with at least one digit. -/
def readExponent? : List Char → Option Int
  | [] => some 0
  | e :: cs =>
      let (negative, digits) := splitSign cs
      if (e == 'e' || e == 'E') && !digits.isEmpty && digits.all Char.isDigit then
        let magnitude : Int := exponentMagnitude digits
        some (if negative then -magnitude else magnitude)
      else none

/-- Splits the digits behind a point from what follows them; without a point there are none. -/
def splitFraction : List Char → List Char × List Char
  | '.' :: cs => (cs.takeWhile Char.isDigit, cs.dropWhile Char.isDigit)
  | cs => ([], cs)

/-- Reads a whole text as a decimal numeral. At least one digit stands before or behind the point.
-/
def ofText? (text : List Char) : Option Decimal :=
  let (negative, body) := splitSign text
  let whole := body.takeWhile Char.isDigit
  let (fraction, rest) := splitFraction (body.dropWhile Char.isDigit)
  if whole.isEmpty && fraction.isEmpty then none
  else
    (readExponent? rest).map fun exponent =>
      { negative
        digits := Numeral.decimalValue (whole ++ fraction)
        exponent := exponent - fraction.length }

/-- The numerator of the magnitude as a fraction of natural numbers. -/
def numerator (decimal : Decimal) : Nat :=
  decimal.digits * Nat.pow 10 decimal.exponent.toNat

/-- The denominator of the magnitude as a fraction of natural numbers. -/
def denominator (decimal : Decimal) : Nat :=
  Nat.pow 10 (-decimal.exponent).toNat

/-- The nearest binary value, or nothing when that is an infinity. -/
def binary64? (decimal : Decimal) : Option UInt64 :=
  Binary64.ofRatio? decimal.negative decimal.numerator decimal.denominator

end Decimal

end StackAsm
