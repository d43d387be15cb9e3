import FormLetter.Date.Moment
import FormLetter.Number.Decimal
import FormLetter.Text.Blank

/-!
# Date patterns

A pattern is text with fields in it, each a percent sign and a letter: `%d.%m.%Y`. `parse?` reads
a pattern; some letters stand for several fields, and a numeric field may have its padding
changed by `-`, `_` or `0` before the letter. `Item.write` prints one item for a moment.
-/

namespace FormLetter.Calendar

open FormLetter.Number

inductive Pad where
  | none
  | zero
  | space
  deriving DecidableEq, Repr

inductive NumericField where
  | year
  | century
  | yearOfCentury
  | isoYear
  | isoYearOfCentury
  | quarter
  | month
  | day
  | weekFromSunday
  | weekFromMonday
  | isoWeek
  | daysFromSunday
  | dayOfWeek
  | dayOfYear
  | hour
  | hour12
  | minute
  | second
  | nanosecond
  | timestamp
  deriving DecidableEq, Repr

inductive TextField where
  | shortMonth
  | longMonth
  | shortWeekday
  | longWeekday
  | lowerHalfDay
  | upperHalfDay
  /-- The fraction of a second with its point, as long as it has to be in steps of three. -/
  | fraction
  /-- So many digits of the fraction of a second, with a point in front or without. -/
  | fractionDigits (point : Bool) (digits : Nat)
  | zoneName
  | offset
  | offsetColon
  | offsetSeconds
  | offsetHours
  /-- An offset in whatever form. It can be read but not printed. -/
  | anyOffset
  /-- The whole moment in the notation of RFC 3339. -/
  | internetTime
  deriving DecidableEq, Repr

inductive Item where
  | literal (c : Char)
  | blank (c : Char)
  | numeric (field : NumericField) (pad : Pad)
  | text (field : TextField)
  deriving DecidableEq, Repr

def zeroed (f : NumericField) : Item := .numeric f .zero

def spaced (f : NumericField) : Item := .numeric f .space

def bare (f : NumericField) : Item := .numeric f .none

/-- The items that a letter stands for. -/
def letterItems? (c : Char) : Option (List Item) :=
  match c with
  | 'A' => some [.text .longWeekday]
  | 'B' => some [.text .longMonth]
  | 'C' => some [zeroed .century]
  | 'D' | 'x' =>
    some [zeroed .month, .literal '/', zeroed .day, .literal '/', zeroed .yearOfCentury]
  | 'F' => some [zeroed .year, .literal '-', zeroed .month, .literal '-', zeroed .day]
  | 'G' => some [zeroed .isoYear]
  | 'H' => some [zeroed .hour]
  | 'I' => some [zeroed .hour12]
  | 'M' => some [zeroed .minute]
  | 'P' => some [.text .lowerHalfDay]
  | 'R' => some [zeroed .hour, .literal ':', zeroed .minute]
  | 'S' => some [zeroed .second]
  | 'T' | 'X' =>
    some [zeroed .hour, .literal ':', zeroed .minute, .literal ':', zeroed .second]
  | 'U' => some [zeroed .weekFromSunday]
  | 'V' => some [zeroed .isoWeek]
  | 'W' => some [zeroed .weekFromMonday]
  | 'Y' => some [zeroed .year]
  | 'Z' => some [.text .zoneName]
  | 'a' => some [.text .shortWeekday]
  | 'b' | 'h' => some [.text .shortMonth]
  | 'c' =>
    some [.text .shortWeekday, .blank ' ', .text .shortMonth, .blank ' ', spaced .day, .blank ' ',
      zeroed .hour, .literal ':', zeroed .minute, .literal ':', zeroed .second, .blank ' ',
      zeroed .year]
  | 'd' => some [zeroed .day]
  | 'e' => some [spaced .day]
  | 'f' => some [zeroed .nanosecond]
  | 'g' => some [zeroed .isoYearOfCentury]
  | 'j' => some [zeroed .dayOfYear]
  | 'k' => some [spaced .hour]
  | 'l' => some [spaced .hour12]
  | 'm' => some [zeroed .month]
  | 'n' => some [.blank '\n']
  | 'p' => some [.text .upperHalfDay]
  | 'q' => some [bare .quarter]
  | 'r' =>
    some [zeroed .hour12, .literal ':', zeroed .minute, .literal ':', zeroed .second, .blank ' ',
      .text .upperHalfDay]
  | 's' => some [bare .timestamp]
  | 't' => some [.blank '\t']
  | 'u' => some [bare .dayOfWeek]
  | 'v' =>
    some [spaced .day, .literal '-', .text .shortMonth, .literal '-', zeroed .year]
  | 'w' => some [bare .daysFromSunday]
  | 'y' => some [zeroed .yearOfCentury]
  | 'z' => some [.text .offset]
  | '+' => some [.text .internetTime]
  | '%' => some [.literal '%']
  | _ => none

def padding? (c : Char) : Option Pad :=
  match c with
  | '-' => some .none
  | '0' => some .zero
  | '_' => some .space
  | _ => none

/-- The items of what follows a percent sign, and the rest of the pattern. A padding may stand
before a letter that means a single numeric field, and only there. -/
def readSpecifier : List Char → Option (List Item × List Char)
  | ':' :: ':' :: ':' :: 'z' :: cs => some ([.text .offsetHours], cs)
  | ':' :: ':' :: 'z' :: cs => some ([.text .offsetSeconds], cs)
  | ':' :: 'z' :: cs => some ([.text .offsetColon], cs)
  | '#' :: 'z' :: cs => some ([.text .anyOffset], cs)
  | '.' :: 'f' :: cs => some ([.text .fraction], cs)
  | '.' :: '3' :: 'f' :: cs => some ([.text (.fractionDigits true 3)], cs)
  | '.' :: '6' :: 'f' :: cs => some ([.text (.fractionDigits true 6)], cs)
  | '.' :: '9' :: 'f' :: cs => some ([.text (.fractionDigits true 9)], cs)
  | '3' :: 'f' :: cs => some ([.text (.fractionDigits false 3)], cs)
  | '6' :: 'f' :: cs => some ([.text (.fractionDigits false 6)], cs)
  | '9' :: 'f' :: cs => some ([.text (.fractionDigits false 9)], cs)
  | c :: cs =>
    match padding? c with
    | some pad =>
      match cs with
      | d :: rest =>
        match letterItems? d with
        | some [.numeric f _] => some ([.numeric f pad], rest)
        | _ => none
      | [] => none
    | none => (letterItems? c).map (·, cs)
  | [] => none

theorem readSpecifier_shorter {cs rest : List Char} {items : List Item}
    (h : readSpecifier cs = some (items, rest)) : rest.length < cs.length := by
  unfold readSpecifier at h
  repeat' split at h
  all_goals try cases h
  all_goals try simp only [List.length_cons]
  all_goals try omega
  rename_i c cs _ _
  obtain ⟨_, _, heq⟩ := Option.map_eq_some_iff.1 h
  cases heq
  simp

/-- The items of a pattern; none if a percent sign starts no field. -/
def Item.parse? : List Char → Option (List Item)
  | [] => some []
  | c :: cs =>
    if c = '%' then
      match _ : readSpecifier cs with
      | some (items, rest) => (Item.parse? rest).map (items ++ ·)
      | none => none
    else (Item.parse? cs).map ((if Text.isBlank c then .blank c else .literal c) :: ·)
termination_by cs => cs.length
decreasing_by
  · have := readSpecifier_shorter ‹_›
    simp only [List.length_cons]
    omega
  · simp

/-! ## Printing -/

def monthNames : List String :=
  ["January", "February", "March", "April", "May", "June", "July", "August", "September",
    "October", "November", "December"]

def weekdayNames : List String :=
  ["Monday", "Tuesday", "Wednesday", "Thursday", "Friday", "Saturday", "Sunday"]

def Date.monthName (d : Date) : List Char := ((monthNames[d.month - 1]?).getD "").toList

def Date.weekdayName (d : Date) : List Char := ((weekdayNames[d.daysFromMonday]?).getD "").toList

def padLeft (c : Char) (width : Nat) (cs : List Char) : List Char :=
  List.replicate (width - cs.length) c ++ cs

/-- An integer, padded up to `width`, which counts its sign; zeros go after the sign. `plus`
writes a sign before a positive one too. -/
def padded (width : Nat) (plus : Bool) (pad : Pad) (n : Int) : List Char :=
  let sign := if n < 0 then ['-'] else if plus then ['+'] else []
  let digits := decimalDigits n.natAbs
  match pad with
  | .none => sign ++ digits
  | .zero => sign ++ padLeft '0' (width - sign.length) digits
  | .space => padLeft ' ' width (sign ++ digits)

/-- A number of two digits. Its tens are one character, past the digits if they are above
nine. -/
def twoDigits (pad : Pad) (n : Nat) : List Char :=
  let ones := Char.ofNat ('0'.toNat + n % 10)
  let tens := Char.ofNat ('0'.toNat + n / 10)
  if n / 10 = 0 then
    match pad with
    | .none => [ones]
    | .zero => ['0', ones]
    | .space => [' ', ones]
  else [tens, ones]

def yearText (pad : Pad) (year : Int) : List Char :=
  if 0 ≤ year ∧ year < 10000 then padded 4 false pad year else padded 5 true pad year

/-- The hundreds of a year, of which eight bits count. -/
def centuryOctet (year : Int) : Nat := (year.fdiv 100 % 256).toNat

def yearInCentury (year : Int) : Nat := (year % 100).toNat

def NumericField.write (m : Moment) (pad : Pad) : NumericField → List Char
  | .year => yearText pad m.date.year
  | .century => twoDigits pad (centuryOctet m.date.year)
  | .yearOfCentury => twoDigits pad (yearInCentury m.date.year)
  | .isoYear => yearText pad m.date.isoYear
  | .isoYearOfCentury => twoDigits pad (yearInCentury m.date.isoYear)
  | .quarter => decimalDigits m.date.quarter
  | .month => twoDigits pad m.date.month
  | .day => twoDigits pad m.date.day
  | .weekFromSunday => twoDigits pad m.date.weekFromSunday
  | .weekFromMonday => twoDigits pad m.date.weekFromMonday
  | .isoWeek => twoDigits pad m.date.isoWeek
  | .daysFromSunday => decimalDigits m.date.daysFromSunday
  | .dayOfWeek => decimalDigits (m.date.daysFromMonday + 1)
  | .dayOfYear => padded 3 false pad m.date.dayOfYear
  | .hour => twoDigits pad m.hour
  | .hour12 => twoDigits pad m.hour12
  | .minute => twoDigits pad m.minute
  | .second => twoDigits pad m.second
  | .nanosecond => padded 9 false pad m.nanosecond
  | .timestamp => padded 9 false pad m.timestamp

/-- The first digits of a fraction of a second. -/
def fractionText (nanosecond digits : Nat) : List Char :=
  zeroPadded digits (nanosecond / Nat.pow 10 (9 - digits))

/-- A fraction of a second with its point, of three, six or nine digits; no fraction is empty. -/
def shortFraction (nanosecond : Nat) : List Char :=
  if nanosecond = 0 then []
  else if nanosecond % 1000000 = 0 then '.' :: fractionText nanosecond 3
  else if nanosecond % 1000 = 0 then '.' :: fractionText nanosecond 6
  else '.' :: fractionText nanosecond 9

def offsetHoursText (offset : Int) : List Char :=
  (if offset < 0 then '-' else '+') :: twoDigits .zero (offset.natAbs / 60)

def offsetText (separator : List Char) (offset : Int) : List Char :=
  offsetHoursText offset ++ separator ++ twoDigits .zero (offset.natAbs % 60)

def internetTimeText (m : Moment) : List Char :=
  yearText .zero m.date.year ++ '-' :: twoDigits .zero m.date.month ++
    '-' :: twoDigits .zero m.date.day ++ 'T' :: twoDigits .zero m.hour ++
    ':' :: twoDigits .zero m.minute ++ ':' :: twoDigits .zero m.second ++
    shortFraction m.nanosecond ++ offsetText [':'] m.offset

def TextField.write (m : Moment) : TextField → Option (List Char)
  | .shortMonth => some (m.date.monthName.take 3)
  | .longMonth => some m.date.monthName
  | .shortWeekday => some (m.date.weekdayName.take 3)
  | .longWeekday => some m.date.weekdayName
  | .lowerHalfDay => some (if m.isAfternoon then ['p', 'm'] else ['a', 'm'])
  | .upperHalfDay => some (if m.isAfternoon then ['P', 'M'] else ['A', 'M'])
  | .fraction => some (shortFraction m.nanosecond)
  | .fractionDigits point digits =>
    some ((if point then ['.'] else []) ++ fractionText m.nanosecond digits)
  | .zoneName => some (offsetText [':'] m.offset)
  | .offset => some (offsetText [] m.offset)
  | .offsetColon => some (offsetText [':'] m.offset)
  | .offsetSeconds => some (offsetText [':'] m.offset ++ [':', '0', '0'])
  | .offsetHours => some (offsetHoursText m.offset)
  | .anyOffset => none
  | .internetTime => some (internetTimeText m)

def Item.write (m : Moment) : Item → Option (List Char)
  | .literal c => some [c]
  | .blank c => some [c]
  | .numeric field pad => some (field.write m pad)
  | .text field => field.write m

/-- A moment in a pattern; none if some item cannot be printed. -/
def Moment.write (m : Moment) (items : List Item) : Option (List Char) :=
  (items.mapM (Item.write m)).map List.flatten

end FormLetter.Calendar
