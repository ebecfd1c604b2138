import Chartist.Scalar

/-!
# Decimals as they are spelled

A `Numeral` is what a decimal text says before it is rounded to any type of numbers. The
scanners of this module take digits off the front of a text; each format decides for itself
which digits it demands.
-/

namespace Chartist.Decimal

/-- The decimal `mantissa * 10 ^ exponent`, negated if asked. -/
structure Numeral where
  negative : Bool
  mantissa : Nat
  exponent : Int
  deriving Repr, DecidableEq

/-- The value of a numeral. A zero keeps its sign. -/
def Numeral.value {α : Type} [Scalar α] (n : Numeral) : α :=
  let magnitude := match n.exponent with
    | .ofNat e => Scalar.ofDecimal n.mantissa false e
    | .negSucc e => Scalar.ofDecimal n.mantissa true (e + 1)
  if n.negative then -magnitude else magnitude

/-- The digits at the front of a text, and what follows them. -/
def spanDigits (cs : List Char) : List Char × List Char :=
  (cs.takeWhile Char.isDigit, cs.dropWhile Char.isDigit)

/-- The number that a list of digits spells. -/
def digitsValue (ds : List Char) : Nat :=
  ds.foldl (fun n d => 10 * n + (d.toNat - 48)) 0

/-- The numeral of the digits before a point, those after it and a power of ten. -/
def Numeral.ofDigits (negative : Bool) (whole fraction : List Char) (power : Int) : Numeral :=
  ⟨negative, digitsValue (whole ++ fraction), power - fraction.length⟩

/-- An exponent at the front of a text, if there is one: the letter, perhaps a sign, and at
least one digit. The whole text is refused if the letter stands without digits. -/
def scanExponent (cs : List Char) : Option (Option Int × List Char) :=
  let digits (negative : Bool) (cs : List Char) : Option (Option Int × List Char) :=
    let (ds, rest) := spanDigits cs
    let n : Int := digitsValue ds
    if ds.isEmpty then none else some (some (if negative then -n else n), rest)
  match cs with
  | 'e' :: '-' :: cs | 'E' :: '-' :: cs => digits true cs
  | 'e' :: '+' :: cs | 'E' :: '+' :: cs => digits false cs
  | 'e' :: cs | 'E' :: cs => digits false cs
  | cs => some (none, cs)

end Chartist.Decimal
