import Chartist.Calendar.Stamp
import Chartist.Decimal.Spelling
import Chartist.Scalar.Binary64
import Chartist.Text.Radix
import Chartist.Toml.Value

/-!
# Numbers, dates and times

Integers of 64 bits in four bases, decimals, and dates and times in their standard spelling.
Single underscores may stand between digits.
-/

namespace Chartist.Toml

open Decimal Text

/-- Digits that go on a run, with single underscores between them. -/
def moreDigits (base : Nat) : List Char → Option (List Char × List Char)
  | '_' :: d :: cs =>
    if isDigitIn base d then
      (moreDigits base cs).map fun (ds, rest) => (d :: ds, rest)
    else none
  | ['_'] => none
  | d :: cs =>
    if isDigitIn base d then
      (moreDigits base cs).map fun (ds, rest) => (d :: ds, rest)
    else some ([], d :: cs)
  | [] => some ([], [])

/-- At least one digit. -/
def scanRun (base : Nat) : List Char → Option (List Char × List Char)
  | d :: cs =>
    if isDigitIn base d then
      (moreDigits base cs).map fun (ds, rest) => (d :: ds, rest)
    else none
  | [] => none

/-- The digits of a decimal integer: a zero alone, or a run that starts with no zero. -/
def scanWhole : List Char → Option (List Char × List Char)
  | '0' :: cs => some (['0'], cs)
  | cs => scanRun 10 cs

/-- A power of ten after its letter. -/
def scanPower (cs : List Char) : Option (Int × List Char) := do
  let (negative, cs) := scanSign cs
  let (digits, rest) ← scanRun 10 cs
  let n : Int := digitsValue digits
  some (if negative then -n else n, rest)

/-- An integer in the range of 64 bits. -/
def integerValue? (n : Int) : Option Value :=
  if isInt64 n then some (.integer n) else none

/-- An integer in a base other than ten, after the letter of the base. -/
def scanInteger (base : Nat) (cs : List Char) : Option (Value × List Char) := do
  let (digits, rest) ← scanRun base cs
  some (← integerValue? (valueIn base digits), rest)

/-- A decimal with a fraction or a power. One too large for any number is refused. -/
def realValue? (n : Numeral) : Option Value :=
  let x : Float := n.value
  if x = Scalar.infinity then none else some (.real x)

/-- A decimal after its sign. -/
def scanDecimal (negative : Bool) (cs : List Char) : Option (Value × List Char) := do
  let (whole, cs) ← scanWhole cs
  let real (fraction : List Char) (power : Int) : Option Value :=
    realValue? (.ofDigits negative whole fraction power)
  match cs with
  | '.' :: cs =>
    let (fraction, cs) ← scanRun 10 cs
    match cs with
    | 'e' :: cs | 'E' :: cs =>
      let (power, cs) ← scanPower cs
      some (← real fraction power, cs)
    | cs => some (← real fraction 0, cs)
  | 'e' :: cs | 'E' :: cs =>
    let (power, cs) ← scanPower cs
    some (← real [] power, cs)
  | cs =>
    let n : Int := digitsValue whole
    some (← integerValue? (if negative then -n else n), cs)

/-- A number. -/
def scanNumber : List Char → Option (Value × List Char)
  | '0' :: 'x' :: cs => scanInteger 16 cs
  | '0' :: 'o' :: cs => scanInteger 8 cs
  | '0' :: 'b' :: cs => scanInteger 2 cs
  | cs =>
    let (negative, cs) := scanSign cs
    let signed (x : Float) : Value := .real (if negative then -x else x)
    match cs with
    | 'i' :: 'n' :: 'f' :: cs => some (signed Scalar.infinity, cs)
    | 'n' :: 'a' :: 'n' :: cs => some (signed Scalar.nan, cs)
    | cs => scanDecimal negative cs

/-! ## Dates and times -/

/-- Two digits whose number is at most `most`. -/
def scanPair (most : Nat) (cs : List Char) : Option (Nat × List Char) := do
  let (n, rest) ← scanExactly 10 2 cs
  if n ≤ most then some (n, rest) else none

/-- The character, and what follows it. -/
def scanChar (c : Char) : List Char → Option (List Char)
  | d :: cs => if c = d then some cs else none
  | [] => none

/-- A date that exists. -/
def scanDate (cs : List Char) : Option (String × List Char) := do
  let (year, cs) ← scanExactly 10 4 cs
  let (month, cs) ← scanPair 12 (← scanChar '-' cs)
  let (day, cs) ← scanPair 31 (← scanChar '-' cs)
  if (Calendar.Date.mk year month day).isValid then
    some (s!"{Calendar.padded 4 year}-{Calendar.padded 2 month}-{Calendar.padded 2 day}", cs)
  else none

/-- The fraction of a second: at most nine of its places count, and zeros at the end are
left out. -/
def scanSecondFraction : List Char → Option (String × List Char)
  | '.' :: cs =>
    let (digits, rest) := spanDigits cs
    let places := ((digits.take 9).reverse.dropWhile (· = '0')).reverse
    if digits.isEmpty then none
    else if places.isEmpty then some ("", rest)
    else some ("." ++ String.ofList places, rest)
  | cs => some ("", cs)

/-- A time of day with seconds. -/
def scanTime (cs : List Char) : Option (String × List Char) := do
  let (hour, cs) ← scanPair 23 cs
  let (minute, cs) ← scanPair 59 (← scanChar ':' cs)
  let (second, cs) ← scanPair 60 (← scanChar ':' cs)
  let (fraction, cs) ← scanSecondFraction cs
  let pair := Calendar.padded 2
  some (s!"{pair hour}:{pair minute}:{pair second}{fraction}", cs)

/-- The distance from universal time, if it is given. No distance counts as positive. -/
def scanOffset (cs : List Char) : Option (String × List Char) :=
  let distance (sign : String) (cs : List Char) : Option (String × List Char) := do
    let (hour, cs) ← scanPair 23 cs
    let (minute, cs) ← scanPair 59 (← scanChar ':' cs)
    let sign := if hour = 0 ∧ minute = 0 then "+" else sign
    some (s!"{sign}{Calendar.padded 2 hour}:{Calendar.padded 2 minute}", cs)
  match cs with
  | 'Z' :: cs | 'z' :: cs => some ("Z", cs)
  | '+' :: cs => distance "+" cs
  | '-' :: cs => distance "-" cs
  | cs => some ("", cs)

/-- The time of day after a date and the letter or blank between them. -/
def scanDayTime (cs : List Char) : Option (String × List Char) := do
  let (time, cs) ← scanTime cs
  let (offset, cs) ← scanOffset cs
  some ("T" ++ time ++ offset, cs)

/-- A blank after a date belongs to it only if a time of day follows. -/
def startsTime (cs : List Char) : Bool :=
  match scanPair 23 cs with
  | some (_, ':' :: _) => true
  | _ => false

/-- A date, a time, or both. -/
def scanMoment (cs : List Char) : Option (Value × List Char) :=
  match scanDate cs with
  | some (date, c :: rest) =>
    if (c = 'T' || c = 't' || c = ' ') && startsTime rest then
      (scanDayTime rest).map fun (time, rest) => (.moment (date ++ time), rest)
    else some (.moment date, c :: rest)
  | some (date, []) => some (.moment date, [])
  | none => (scanTime cs).map fun (time, rest) => (.moment time, rest)

end Chartist.Toml
