import FormLetter.Date.Calendar

/-!
# Moments

A `Moment` is a date and a time of day at an offset from UTC. A leap second is written as
second 60 and counts as the second before it.
-/

namespace FormLetter.Calendar

/-- A local date and time. `offset` is its distance from UTC in minutes, east counted up. -/
structure Moment where
  date : Date
  hour : Nat
  minute : Nat
  second : Nat
  nanosecond : Nat
  offset : Int
  deriving DecidableEq, Repr

namespace Moment

def timestamp (m : Moment) : Int :=
  m.date.dayNumber * 86400 + m.hour * 3600 + m.minute * 60 + min m.second 59 - m.offset * 60

/-- The moment of a timestamp, in UTC, if it falls in a year that dates may have. -/
def ofTimestamp? (seconds : Int) : Option Moment :=
  let date := Date.ofDayNumber (seconds.fdiv 86400)
  let rest := (seconds.fmod 86400).toNat
  if minYear ≤ date.year ∧ date.year ≤ maxYear then
    some ⟨date, rest / 3600, rest / 60 % 60, rest % 60, 0, 0⟩
  else none

def hour12 (m : Moment) : Nat := if m.hour % 12 = 0 then 12 else m.hour % 12

def isAfternoon (m : Moment) : Bool := 12 ≤ m.hour

end Moment

end FormLetter.Calendar
