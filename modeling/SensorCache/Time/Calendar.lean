/-!
# The civil calendar

Dates of the proleptic Gregorian calendar as days counted from 1970-01-01. The year is taken to
begin in March, so that the leap day is the last of its year; four hundred such years have 146097
days.
-/

namespace SensorCache.Time

/-- A date of the calendar; years before year 1 are zero and below. -/
structure Date where
  year : Int
  month : Nat
  day : Nat
  deriving DecidableEq, Inhabited

def isLeapYear (y : Int) : Bool := y % 4 == 0 && (y % 100 != 0 || y % 400 == 0)

def daysInMonth (y : Int) (m : Nat) : Nat :=
  if m == 2 then (if isLeapYear y then 29 else 28)
  else if m == 4 || m == 6 || m == 9 || m == 11 then 30
  else 31

namespace Date

def valid (d : Date) : Bool :=
  1 ≤ d.month && d.month ≤ 12 && 1 ≤ d.day && d.day ≤ daysInMonth d.year d.month

/-- Days from 1970-01-01 to `d`. -/
def toDays (d : Date) : Int :=
  let y : Int := if d.month ≤ 2 then d.year - 1 else d.year
  let era := y / 400
  let yearOfEra := y % 400
  let monthFromMarch : Int := (d.month + 9) % 12
  let dayOfYear := (153 * monthFromMarch + 2) / 5 + d.day - 1
  let dayOfEra := yearOfEra * 365 + yearOfEra / 4 - yearOfEra / 100 + dayOfYear
  era * 146097 + dayOfEra - 719468

/-- The date `z` days after 1970-01-01. -/
def ofDays (z : Int) : Date :=
  let z := z + 719468
  let era := z / 146097
  let dayOfEra := z % 146097
  let yearOfEra := (dayOfEra - dayOfEra / 1460 + dayOfEra / 36524 - dayOfEra / 146096) / 365
  let dayOfYear := dayOfEra - (365 * yearOfEra + yearOfEra / 4 - yearOfEra / 100)
  let monthFromMarch := (5 * dayOfYear + 2) / 153
  let day := dayOfYear - (153 * monthFromMarch + 2) / 5 + 1
  let month := if monthFromMarch < 10 then monthFromMarch + 3 else monthFromMarch - 9
  let year := yearOfEra + era * 400
  ⟨if month ≤ 2 then year + 1 else year, month.toNat, day.toNat⟩

end Date

/-- The first and the last day that can be named: -262143-01-01 and 262142-12-31. -/
def firstDay : Int := -96465292

def lastDay : Int := 95026236

example : Date.toDays ⟨-262143, 1, 1⟩ = firstDay := by decide

example : Date.toDays ⟨262142, 12, 31⟩ = lastDay := by decide

def dayInRange (z : Int) : Bool := firstDay ≤ z && z ≤ lastDay

end SensorCache.Time
