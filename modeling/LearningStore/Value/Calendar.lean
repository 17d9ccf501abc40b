import LearningStore.Text.Letters

/-!
# Dates and times of day

Dates of the proleptic Gregorian calendar and times to the nanosecond.  A minute
may have a leap second, which is written as second 60.
-/

namespace LearningStore.Value

open LearningStore.Text

/-- A day of the calendar. -/
structure Date where
  year : Int
  month : Nat
  day : Nat
deriving DecidableEq, Repr

namespace Date

def isLeapYear (year : Int) : Bool :=
  year % 4 == 0 && (year % 100 != 0 || year % 400 == 0)

def daysInMonth (year : Int) (month : Nat) : Nat :=
  match month with
  | 2 => if isLeapYear year then 29 else 28
  | 4 | 6 | 9 | 11 => 30
  | _ => 31

/-- The years that a date may lie in. -/
def firstYear : Int := -262143

def lastYear : Int := 262142

/-- Whether the fields name a day of a year that dates may lie in. -/
def isReal (d : Date) : Bool :=
  firstYear ≤ d.year && d.year ≤ lastYear && 1 ≤ d.month && d.month ≤ 12 &&
    1 ≤ d.day && d.day ≤ daysInMonth d.year d.month

/-- The day after. -/
def next (d : Date) : Date :=
  if d.day < daysInMonth d.year d.month then ⟨d.year, d.month, d.day + 1⟩
  else if d.month < 12 then ⟨d.year, d.month + 1, 1⟩
  else ⟨d.year + 1, 1, 1⟩

/-- The day before. -/
def previous (d : Date) : Date :=
  if 1 < d.day then ⟨d.year, d.month, d.day - 1⟩
  else if 1 < d.month then ⟨d.year, d.month - 1, daysInMonth d.year (d.month - 1)⟩
  else ⟨d.year - 1, 12, 31⟩

end Date

/-- A date with a time of day. -/
structure DateTime where
  date : Date
  hour : Nat
  minute : Nat
  second : Nat
  nanosecond : Nat
deriving DecidableEq, Repr

namespace DateTime

/-- Whether the date is real and the time one of a day, leap seconds included. -/
def isReal (t : DateTime) : Bool :=
  t.date.isReal && t.hour ≤ 23 && t.minute ≤ 59 && t.second ≤ 60

/-- The time that many minutes earlier, for less than a day. -/
def minusMinutes (t : DateTime) (minutes : Int) : DateTime :=
  let total : Int := t.hour * 60 + t.minute - minutes
  let date :=
    if total < 0 then t.date.previous
    else if total < 1440 then t.date
    else t.date.next
  let ofDay := (total % 1440).toNat
  ⟨date, ofDay / 60, ofDay % 60, t.second, t.nanosecond⟩

/-! ## Printing -/

/-- A year has four digits, and a sign too outside the years 0 to 9999. -/
def yearText (year : Int) : List Char :=
  if year < 0 then '-' :: paddedDigits 4 year.natAbs
  else if year ≤ 9999 then paddedDigits 4 year.natAbs
  else '+' :: paddedDigits 4 year.natAbs

/-- Date and time to the second. -/
def toSecond (t : DateTime) : List Char :=
  yearText t.date.year ++ '-' :: paddedDigits 2 t.date.month ++ '-' ::
    paddedDigits 2 t.date.day ++ ' ' :: paddedDigits 2 t.hour ++ ':' ::
    paddedDigits 2 t.minute ++ ':' :: paddedDigits 2 t.second

/-- Date and time to the millisecond, what lies below cut off. -/
def toMillisecond (t : DateTime) : List Char :=
  t.toSecond ++ '.' :: paddedDigits 3 (t.nanosecond / 1000000)

end DateTime

end LearningStore.Value
