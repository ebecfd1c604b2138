import Chartist.Calendar.Date
import Chartist.Decimal.Numeral
import Chartist.Text.Blank

/-!
# Date patterns

A pattern is a list of items, each of which takes its part off the front of a text: the
number of a field, a character, or any blanks. Blanks may also stand in front of a number.
A text matches if nothing of it is left, and if the date exists and the time of day is one
of a clock, which may show a leap second. A pattern without a time of day reads midnight.
-/

namespace Chartist.Calendar

/-- A date and a time of day. -/
structure Moment where
  date : Date
  hour : Nat
  minute : Nat
  second : Nat
  deriving Repr, DecidableEq

namespace Moment

/-- The least and the greatest year of the calendar. -/
def firstYear : Int := -262143

def lastYear : Int := 262142

/-- The date exists, and a clock can show the time. -/
def isValid (m : Moment) : Bool :=
  firstYear ≤ m.date.year && m.date.year ≤ lastYear && m.date.isValid
    && m.hour ≤ 23 && m.minute ≤ 59 && m.second ≤ 60

/-- The milliseconds since the start of 1970. A leap second counts as the first one of the
minute that follows. -/
def toStamp (m : Moment) : Int :=
  ((m.date.toDays * 24 + m.hour) * 60 + m.minute) * 60000 + m.second * 1000

/-- Midnight at the start of 1970. -/
def epoch : Moment := ⟨⟨1970, 1, 1⟩, 0, 0, 0⟩

end Moment

/-- A part of a pattern. -/
inductive Item where
  | year
  | month
  | day
  | hour
  | minute
  | second
  /-- Any number of blanks. -/
  | blanks
  | literal (c : Char)
  deriving Repr, DecidableEq

/-- At least one digit, and the longest run of them up to `width`. -/
def scanDigits (width : Nat) (cs : List Char) : Option (Nat × List Char) :=
  let digits := (cs.take width).takeWhile Char.isDigit
  if digits.isEmpty then none
  else some (Decimal.digitsValue digits, cs.drop digits.length)

/-- A year: up to four digits, or a sign and any number of them. -/
def scanYear : List Char → Option (Int × List Char)
  | '-' :: cs => (scanDigits cs.length cs).map fun (n, rest) => (-n, rest)
  | '+' :: cs => (scanDigits cs.length cs).map fun (n, rest) => (n, rest)
  | cs => (scanDigits 4 cs).map fun (n, rest) => (n, rest)

/-- Takes an item off the front of a text and notes what it says. -/
def Item.scan (item : Item) (m : Moment) (cs : List Char) : Option (Moment × List Char) :=
  let number (note : Nat → Moment) : Option (Moment × List Char) :=
    (scanDigits 2 (Text.trimStart cs)).map fun (n, rest) => (note n, rest)
  match item with
  | .year => (scanYear (Text.trimStart cs)).map fun (n, rest) =>
      ({ m with date := { m.date with year := n } }, rest)
  | .month => number fun n => { m with date := { m.date with month := n } }
  | .day => number fun n => { m with date := { m.date with day := n } }
  | .hour => number fun n => { m with hour := n }
  | .minute => number fun n => { m with minute := n }
  | .second => number fun n => { m with second := n }
  | .blanks => some (m, Text.trimStart cs)
  | .literal c => match cs with
    | d :: rest => if c = d then some (m, rest) else none
    | [] => none

/-- The items of a date or of a date and a time. -/
abbrev Pattern := List Item

namespace Pattern

/-- Takes all items off the front of a text. -/
def scan : Pattern → Moment → List Char → Option (Moment × List Char)
  | [], m, cs => some (m, cs)
  | item :: rest, m, cs => do
    let (m, cs) ← item.scan m cs
    scan rest m cs

/-- The moment that a text spells in a pattern. -/
def read? (p : Pattern) (text : String) : Option Moment := do
  let (m, rest) ← p.scan Moment.epoch text.toList
  if rest.isEmpty && m.isValid then some m else none

/-- Three items with a character between them. -/
def joined (x y z : Item) (c : Char) : Pattern := [x, .literal c, y, .literal c, z]

/-- A clock with hours, minutes and seconds. -/
def clock : Pattern := joined .hour .minute .second ':'

/-- The patterns with a time of day, then those without. -/
def all : List Pattern :=
  let dashed := joined .year .month .day '-'
  let slashed := joined .year .month .day '/'
  [dashed ++ .blanks :: clock,
    dashed ++ .literal 'T' :: clock,
    slashed ++ [.blanks, .hour, .literal ':', .minute],
    dashed,
    slashed,
    joined .month .day .year '/',
    joined .day .month .year '-']

end Pattern

end Chartist.Calendar
