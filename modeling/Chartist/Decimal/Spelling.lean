import Chartist.Decimal.Numeral
import Chartist.Decimal.Power

/-!
# Numbers from text

The spellings of a number that tables and settings admit. A number may have a sign, digits
on either side of a point, and an exponent; infinities and the value that is not a number
are spelled in words, in any case. An integer is a sign and digits. The whole text has to
be used, so a blank anywhere is a fault.
-/

namespace Chartist.Decimal

/-- The sign at the front of a text: whether it is a minus, and what follows it. -/
def scanSign : List Char → Bool × List Char
  | '-' :: cs => (true, cs)
  | '+' :: cs => (false, cs)
  | cs => (false, cs)

/-- The digits after a point, if there is one. -/
def scanFraction : List Char → List Char × List Char
  | '.' :: cs => spanDigits cs
  | cs => ([], cs)

/-- The numeral that a text without a sign spells. One digit is enough, on either side of
the point. -/
def Numeral.ofUnsigned? (negative : Bool) (cs : List Char) : Option Numeral := do
  let (whole, cs) := spanDigits cs
  let (fraction, cs) := scanFraction cs
  if whole.isEmpty && fraction.isEmpty then none
  let (power, cs) ← scanExponent cs
  if cs.isEmpty then some (.ofDigits negative whole fraction (power.getD 0)) else none

/-- The words for values that are no finite number. -/
def wordValue? {α : Type} [Scalar α] (word : String) : Option α :=
  match word with
  | "inf" | "infinity" => some Scalar.infinity
  | "nan" => some Scalar.nan
  | _ => none

/-- The number that a text spells. -/
def number? {α : Type} [Scalar α] (s : String) : Option α :=
  let (negative, cs) := scanSign s.toList
  match wordValue? (α := α) (String.ofList cs).toLower with
  | some x => some (if negative then -x else x)
  | none => (Numeral.ofUnsigned? negative cs).map Numeral.value

/-- The integer that a text spells. -/
def integer? (s : String) : Option Int :=
  let (negative, cs) := scanSign s.toList
  let (digits, rest) := spanDigits cs
  if digits.isEmpty || !rest.isEmpty then none
  else
    let n : Int := digitsValue digits
    some (if negative then -n else n)

/-- The integer of 64 bits that a text spells. -/
def int64? (s : String) : Option Int := do
  let n ← integer? s
  if isInt64 n then some n else none

/-- The count of 64 bits that a text spells, without a minus. -/
def count64? (s : String) : Option Nat := do
  let n ← integer? s
  if s.front = '-' then none
  if isCount 64 n then some n.toNat else none

end Chartist.Decimal
