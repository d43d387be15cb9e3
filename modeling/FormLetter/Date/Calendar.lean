/-!
# The calendar

Dates of the proleptic Gregorian calendar. `dayNumber` counts days from 1 January 1970 and
`ofDayNumber` finds the date of a day; both work in years that start in March and in eras of 400
years, whose length is fixed. Weekdays and weeks are read off the day number.
-/

namespace FormLetter.Calendar

def isLeap (year : Int) : Bool := year % 4 = 0 && (year % 100 != 0 || year % 400 = 0)

def daysInMonth (year : Int) (month : Nat) : Nat :=
  if month = 2 then (if isLeap year then 29 else 28)
  else if month = 4 ∨ month = 6 ∨ month = 9 ∨ month = 11 then 30 else 31

structure Date where
  year : Int
  month : Nat
  day : Nat
  deriving DecidableEq, Repr

def minYear : Int := -262143

def maxYear : Int := 262142

/-- A date that the calendar has. -/
def Date.of? (year : Int) (month day : Nat) : Option Date :=
  if minYear ≤ year ∧ year ≤ maxYear ∧ 1 ≤ month ∧ month ≤ 12 ∧ 1 ≤ day ∧
      day ≤ daysInMonth year month
  then some ⟨year, month, day⟩ else none

def eraDays : Int := 146097

def epochShift : Int := 719468

/-- Days before the first of a month, in a year that starts in March; March is month 0. -/
def daysBeforeMonth (m : Int) : Int := (153 * m + 2) / 5

def daysBeforeYear (y : Int) : Int := 365 * y + y / 4 - y / 100

/-- Days from 1 January 1970. -/
def Date.dayNumber (d : Date) : Int :=
  let month : Int := if d.month ≤ 2 then d.month + 9 else d.month - 3
  let year := if d.month ≤ 2 then d.year - 1 else d.year
  let era := year.fdiv 400
  let yearOfEra := year - era * 400
  era * eraDays + daysBeforeYear yearOfEra + daysBeforeMonth month + d.day - 1 - epochShift

/-- The date of a day. -/
def Date.ofDayNumber (n : Int) : Date :=
  let z := n + epochShift
  let era := z.fdiv eraDays
  let dayOfEra := z - era * eraDays
  let yearOfEra := (dayOfEra - dayOfEra / 1460 + dayOfEra / 36524 - dayOfEra / 146096) / 365
  let dayOfYear := dayOfEra - daysBeforeYear yearOfEra
  let m := (5 * dayOfYear + 2) / 153
  let day := dayOfYear - daysBeforeMonth m + 1
  let month := if m < 10 then m + 3 else m - 9
  let year := yearOfEra + era * 400
  ⟨if month ≤ 2 then year + 1 else year, month.toNat, day.toNat⟩

def Date.daysFromMonday (d : Date) : Nat := ((d.dayNumber + 3) % 7).toNat

def Date.daysFromSunday (d : Date) : Nat := ((d.dayNumber + 4) % 7).toNat

def Date.dayOfYear (d : Date) : Nat :=
  (d.dayNumber - (Date.mk d.year 1 1).dayNumber + 1).toNat

def Date.quarter (d : Date) : Nat := (d.month - 1) / 3 + 1

def Date.weekFromSunday (d : Date) : Nat := (d.dayOfYear + 6 - d.daysFromSunday) / 7

def Date.weekFromMonday (d : Date) : Nat := (d.dayOfYear + 6 - d.daysFromMonday) / 7

/-- The Thursday of the week, which starts on Monday. It decides to which year the week
belongs. -/
def Date.thursday (d : Date) : Date :=
  .ofDayNumber (d.dayNumber - d.daysFromMonday + 3)

def Date.isoYear (d : Date) : Int := d.thursday.year

def Date.isoWeek (d : Date) : Nat := (d.thursday.dayOfYear - 1) / 7 + 1

end FormLetter.Calendar
