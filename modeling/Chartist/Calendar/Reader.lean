import Chartist.Calendar.Pattern
import Chartist.Decimal.Spelling

/-!
# Reading time stamps

A text is tried on each date pattern in turn. What fits none of them may still be an
integer, which counts from the start of 1970 in seconds, or in milliseconds when it is too
large for seconds.
-/

namespace Chartist.Calendar

/-- The greatest count that is taken for seconds. -/
def maxSeconds : Int := 10000000000

/-- The milliseconds of a count of seconds or of milliseconds, in 64 bits. -/
def unixMillis (n : Int) : Int :=
  if maxSeconds < n then n else (n * 1000).bmod (Decimal.twoPow 64)

/-- The time stamp that a text spells as a date. -/
def dateStamp? (text : String) : Option Int :=
  (Pattern.all.findSome? (·.read? text)).map Moment.toStamp

/-- The time stamp that a text spells, as a date or as a count. -/
def stamp? (text : String) : Option Int :=
  match dateStamp? text with
  | some t => some t
  | none => (Decimal.int64? text).map unixMillis

end Chartist.Calendar
