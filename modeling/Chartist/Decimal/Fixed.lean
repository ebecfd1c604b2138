import Chartist.Decimal.Layout

/-!
# A fixed number of decimal places

The exact value of a binary64 number is a fraction. `fixed` rounds that fraction to a given
number of places, a half going to the even neighbour, and writes it with all its places.
-/

namespace Chartist.Decimal

/-- The integer nearest to `num / den`; a half goes to the even neighbour. -/
def roundDiv (num den : Nat) : Nat :=
  let q := num / den
  let twice := 2 * (num % den)
  if den < twice ∨ (twice = den ∧ q % 2 = 1) then q + 1 else q

/-- `mantissa * 2 ^ exponent` in units of the last of `places` places. -/
def roundedUnits (places mantissa : Nat) (exponent : Int) : Nat :=
  match exponent with
  | .ofNat e => mantissa * twoPow e * tenPow places
  | .negSucc e => roundDiv (mantissa * tenPow places) (twoPow (e + 1))

/-- A count of units of the last place, written with all places. -/
def placed (places units : Nat) : String :=
  let digits := Nat.toDigits 10 units
  let digits := List.replicate (places + 1 - digits.length) '0' ++ digits
  let split := digits.length - places
  let fraction := if places = 0 then "" else "." ++ String.ofList (digits.drop split)
  String.ofList (digits.take split) ++ fraction

/-- `x` with exactly `places` decimal places. -/
def fixed (places : Nat) (x : Float) : String :=
  match Parts.of x with
  | .notANumber => "NaN"
  | .infinite negative => signedInfinity negative
  | .finite negative mantissa exponent =>
    let magnitude := placed places (roundedUnits places mantissa exponent)
    if negative then "-" ++ magnitude else magnitude

end Chartist.Decimal
