/-!
Binary floating point of 64 bits: a sign bit, eleven bits of exponent and 52 of fraction.

A rational is rounded to the nearest representable magnitude and a tie goes to the even fraction.
The work is done on natural numbers, in units of the least positive magnitude, `2 ^ (-1074)`.
-/

namespace StackAsm.Binary64

def fractionBits : Nat := 52

/-- The pattern of infinity, the first one past the finite magnitudes. -/
def infinityPattern : Nat := 2047 <<< fractionBits

/-- The pattern of the sign bit. -/
def signPattern : Nat := 1 <<< 63

/-- A quotient rounded to the nearest natural number, a half going to the even neighbour. -/
def roundHalfEven (num den : Nat) : Nat :=
  let quotient := num / den
  let twice := 2 * (num % den)
  if twice < den then quotient
  else if twice = den then quotient + quotient % 2
  else quotient + 1

/-- The pattern of the magnitude nearest to `num / den`, were there no greatest exponent.

In the given unit a magnitude is `n * 2 ^ s` with `n` below `2 ^ 53`, and `s` is zero unless `n`
has all 53 bits. The pattern is then `s * 2 ^ 52 + n`: the leading bit of `n` adds the one by
which the exponent field of a normal magnitude exceeds `s`, and so does the carry when rounding
reaches `2 ^ 53`. -/
def nearestPattern (num den : Nat) : Nat :=
  let scaled := num <<< 1074
  let shift := (scaled / den).log2 - fractionBits
  (shift <<< fractionBits) + roundHalfEven scaled (den <<< shift)

/-- The bits of the value nearest to a signed rational, or nothing when it rounds to an infinity.
A zero keeps its sign. -/
def ofRatio? (negative : Bool) (num den : Nat) : Option UInt64 :=
  let pattern := nearestPattern num den
  if pattern < infinityPattern then
    some (UInt64.ofNat (if negative then signPattern + pattern else pattern))
  else none

end StackAsm.Binary64
