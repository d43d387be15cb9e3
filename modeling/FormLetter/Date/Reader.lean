import FormLetter.Date.Pattern
import FormLetter.Text.Pattern

/-!
# Reading dates

A date is read in one of several notations. `Layout` reads one by a pattern: a field takes white
space, then as many digits as it has places, and blanks of the pattern match any white space,
also none. `readInternetTime?` reads the notation of RFC 3339, in which every digit is there and
the offset is.
-/

namespace FormLetter.Calendar

open FormLetter.Number FormLetter.Text

/-- What has been read of a date and time. -/
structure Reading where
  year : Option Int
  month : Option Nat
  day : Option Nat
  hour : Option Nat
  minute : Option Nat
  second : Option Nat
  deriving Repr

def Reading.empty : Reading := ⟨none, none, none, none, none, none⟩

/-- At least one digit and at most so many, with the rest. -/
def readDigits (places : Nat) (cs : List Char) : Option (Nat × List Char) :=
  let ds := (cs.take places).takeWhile isDigit
  if ds.isEmpty then none else some (digitsValue ds, cs.drop ds.length)

/-- A year: four digits at most, or any number of them after a sign. -/
def readYear : List Char → Option (Int × List Char)
  | '-' :: cs => (readDigits cs.length cs).map fun (n, rest) => (-(n : Int), rest)
  | '+' :: cs => (readDigits cs.length cs).map fun (n, rest) => ((n : Int), rest)
  | cs => (readDigits 4 cs).map fun (n, rest) => ((n : Int), rest)

/-- A number between two bounds, of two digits at most. -/
def readBetween (low high : Nat) (cs : List Char) : Option (Nat × List Char) := do
  let (n, rest) ← readDigits 2 cs
  if low ≤ n ∧ n ≤ high then some (n, rest) else none

/-- Reads one numeric field. The fields of dates and times of day can be read. -/
def Reading.field (r : Reading) (cs : List Char) :
    NumericField → Option (Reading × List Char)
  | .year => (readYear cs).map fun (n, rest) => ({ r with year := some n }, rest)
  | .month => (readBetween 1 12 cs).map fun (n, rest) => ({ r with month := some n }, rest)
  | .day => (readBetween 1 31 cs).map fun (n, rest) => ({ r with day := some n }, rest)
  | .hour => (readBetween 0 23 cs).map fun (n, rest) => ({ r with hour := some n }, rest)
  | .minute => (readBetween 0 59 cs).map fun (n, rest) => ({ r with minute := some n }, rest)
  | .second => (readBetween 0 60 cs).map fun (n, rest) => ({ r with second := some n }, rest)
  | _ => none

def Reading.item (r : Reading) (cs : List Char) : Item → Option (Reading × List Char)
  | .literal c =>
    match cs with
    | d :: rest => if d = c then some (r, rest) else none
    | [] => none
  | .blank _ => some (r, trimStart cs)
  | .numeric f _ => r.field (trimStart cs) f
  | .text _ => none

/-- Reads the whole text by a pattern. -/
def readItems : List Item → Reading → List Char → Option Reading
  | [], r, [] => some r
  | [], _, _ :: _ => none
  | item :: items, r, cs => do
    let (r, rest) ← r.item cs item
    readItems items r rest

def Reading.date? (r : Reading) : Option Date := do
  Date.of? (← r.year) (← r.month) (← r.day)

/-- The moment that was read, in UTC; without a time of day it is midnight. -/
def Reading.moment? (r : Reading) : Option Moment := do
  let date ← r.date?
  some ⟨date, r.hour.getD 0, r.minute.getD 0, r.second.getD 0, 0, 0⟩

def readLayout? (pattern : String) (cs : List Char) : Option Moment := do
  let items ← Item.parse? pattern.toList
  let r ← readItems items .empty cs
  r.moment?

def readExactly (places : Nat) (cs : List Char) : Option (Nat × List Char) :=
  let ds := cs.take places
  if ds.length = places ∧ ds.all isDigit then some (digitsValue ds, cs.drop places) else none

def readChar (c : Char) : List Char → Option (List Char)
  | d :: rest => if d = c then some rest else none
  | [] => none

def readPair (low high : Nat) (cs : List Char) : Option (Nat × List Char) := do
  let (n, rest) ← readExactly 2 cs
  if low ≤ n ∧ n ≤ high then some (n, rest) else none

/-- Nanoseconds: the first nine digits after a point count. Without a point there are none. -/
def readNanoseconds : List Char → Option (Nat × List Char)
  | '.' :: cs =>
    let (ds, rest) := run isDigit cs
    if ds.isEmpty then none
    else
      let first := ds.take 9
      some (digitsValue first * Nat.pow 10 (9 - first.length), rest)
  | cs => some (0, cs)

/-- The minus sign of typography, which an offset may have too. -/
def minusSign : Char := '\u2212'

/-- An offset in minutes: `Z`, or a sign, hours, a colon and minutes. -/
def readOffset : List Char → Option (Int × List Char)
  | c :: cs =>
    if c = 'Z' ∨ c = 'z' then some (0, cs)
    else if c = '+' ∨ c = '-' ∨ c = minusSign then do
      let (hours, cs) ← readPair 0 23 cs
      let cs ← readChar ':' cs
      let (minutes, cs) ← readPair 0 59 cs
      let n : Int := hours * 60 + minutes
      some (if c = '+' then n else -n, cs)
    else none
  | [] => none

def readInternetTime? (cs : List Char) : Option Moment := do
  let (year, cs) ← readExactly 4 cs
  let cs ← readChar '-' cs
  let (month, cs) ← readPair 1 12 cs
  let cs ← readChar '-' cs
  let (day, cs) ← readPair 1 31 cs
  let cs ← match cs with
    | c :: cs => if c = 'T' ∨ c = 't' ∨ c = ' ' then some cs else none
    | [] => none
  let (hour, cs) ← readPair 0 23 cs
  let cs ← readChar ':' cs
  let (minute, cs) ← readPair 0 59 cs
  let cs ← readChar ':' cs
  let (second, cs) ← readPair 0 60 cs
  let (nanosecond, cs) ← readNanoseconds cs
  let (offset, cs) ← readOffset cs
  if !cs.isEmpty then none
  let date ← Date.of? year month day
  some ⟨date, hour, minute, second, nanosecond, offset⟩

end FormLetter.Calendar
