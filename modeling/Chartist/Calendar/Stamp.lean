import Chartist.Calendar.Date

/-!
# Time stamps

A time stamp counts milliseconds from the start of 1970. It is written as a date and a time
of day as long as its year is within the calendar's range; years of four digits stand as
they are, others with a sign.
-/

namespace Chartist.Calendar

/-- The milliseconds of a day. -/
def dayMillis : Int := 86400000

/-- The first and the last time stamp that the calendar can write. -/
def firstStamp : Int := -8334601228800000

def lastStamp : Int := 8210266876799999

/-- A number with at least the given number of digits. -/
def padded (width n : Nat) : String :=
  let digits := toString n
  "".pushn '0' (width - digits.length) ++ digits

/-- The text of a year. -/
def yearText (year : Int) : String :=
  if 0 ≤ year ∧ year ≤ 9999 then padded 4 year.toNat
  else if year < 0 then "-" ++ padded 4 (-year).toNat
  else "+" ++ padded 4 year.toNat

/-- The date and the time of day of a time stamp, to the second. -/
def secondsText (stamp : Int) : Option String :=
  if firstStamp ≤ stamp ∧ stamp ≤ lastStamp then
    let date := Date.ofDays (stamp / dayMillis)
    let second := (stamp % dayMillis).toNat / 1000
    some (s!"{yearText date.year}-{padded 2 date.month}-{padded 2 date.day} "
      ++ s!"{padded 2 (second / 3600)}:{padded 2 (second / 60 % 60)}:{padded 2 (second % 60)}")
  else none

/-- The date and the time of day of a time stamp, to the millisecond. -/
def millisText (stamp : Int) : Option String :=
  (secondsText stamp).map fun s => s!"{s}.{padded 3 (stamp % 1000).toNat}"

end Chartist.Calendar
