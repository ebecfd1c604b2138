import Chartist.Decimal.Power

/-!
# The parts of a binary64 number

A finite binary64 number is a sign and a magnitude `mantissa * 2 ^ exponent`. `Parts.of`
reads both from the 64 bits, and `sortKey` orders the numbers by value, with the negative
zero just below the positive one and the value that is not a number above all.
-/

namespace Chartist.Decimal

/-- What the bits of a binary64 number say. -/
inductive Parts where
  | notANumber
  | infinite (negative : Bool)
  | finite (negative : Bool) (mantissa : Nat) (exponent : Int)
  deriving Repr, DecidableEq

/-- The least exponent, that of the subnormal numbers. -/
def minExponent : Int := -1074

/-- The mantissa of a power of two in the normal range. -/
def leadingMantissa : Nat := twoPow 52

/-- The parts of `x`. -/
def Parts.of (x : Float) : Parts :=
  let bits := x.toBits.toNat
  let negative := twoPow 63 ≤ bits
  let biased : Nat := bits / twoPow 52 % twoPow 11
  let fraction := bits % twoPow 52
  if biased = 2047 then
    if fraction = 0 then .infinite negative else .notANumber
  else if biased = 0 then .finite negative fraction minExponent
  else .finite negative (leadingMantissa + fraction) (biased + (minExponent - 1))

/-- An integer that orders the binary64 numbers by value. -/
def sortKey (x : Float) : Int :=
  let bits := x.toBits.toNat
  if bits < twoPow 63 then bits else (twoPow 63 : Int) - 1 - bits

end Chartist.Decimal
