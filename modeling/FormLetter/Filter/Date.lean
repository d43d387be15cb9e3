import FormLetter.Filter.Number
import FormLetter.Date.Reader

/-!
# The date filter

`date` prints a moment by a pattern. The moment is given as seconds since 1970, in the notation
of RFC 3339, or in one of a few layouts; a time without an offset is UTC.
-/

namespace FormLetter

open FormLetter.Json FormLetter.Number FormLetter.Calendar

/-- The layouts of a date with a time, in the order in which they are tried. -/
def dateTimeLayouts : List String :=
  ["%Y-%m-%d %H:%M:%S", "%Y-%m-%d %H:%M", "%Y-%m-%dT%H:%M:%S", "%d.%m.%Y %H:%M:%S",
    "%d.%m.%Y %H:%M"]

/-- The layouts of a date alone. -/
def dateLayouts : List String := ["%Y-%m-%d", "%d.%m.%Y"]

/-- The moment that a value is or spells. A fraction of a second in a number does not count. -/
def Json.Value.asMoment? (v : Value) : Option Moment :=
  match v.asNumber? with
  | some x => x.floor?.bind Moment.ofTimestamp?
  | none =>
    let cs := Text.trim v.plain.toList
    match readInternetTime? cs with
    | some m => some m
    | none => (dateTimeLayouts ++ dateLayouts).findSome? (readLayout? · cs)

/-- The arguments are pattern and value; the value may be piped in instead. -/
def Filter.date : Filter where
  name := "date"
  apply _ arguments input := do
    let (format, value) ← match arguments with
      | [format] => match input with
        | some v => .ok (format.plain, v)
        | none => .error .missingInput
      | [format, v] => .ok (format.plain, v)
      | _ => .error (.arguments "1 or 2" arguments.length)
    if value.isBlank then return ""
    let items ← match Item.parse? format.toList with
      | some items => .ok items
      | none => .error (.invalidFormat format)
    let moment ← match value.asMoment? with
      | some m => .ok m
      | none => .error (.invalidDate value.plain)
    match moment.write items with
    | some cs => return String.ofList cs
    | none => throw (.invalidFormat format)

end FormLetter
