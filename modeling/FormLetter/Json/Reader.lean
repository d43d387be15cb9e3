import FormLetter.Json.Syntax
import FormLetter.Json.Value

/-!
# Reading JSON values

`Syntax.value?` turns syntax into a value. It refuses nesting past `maxDepth`, escapes that are
not a character, and doubles out of range. A repeated name keeps its first place and takes the
last value. An integer from `-2^63` to below `2^64` stays one; every other number is a double.
-/

namespace FormLetter.Json

open FormLetter.Number

/-- The characters of a string. Two escapes that are a surrogate pair are one character; a
surrogate that is alone is none. -/
def charsOf? : List StringPart → Option (List Char)
  | [] => some []
  | .char c :: rest => (charsOf? rest).map (c :: ·)
  | .unit hi :: .unit lo :: rest =>
    if 0xD800 ≤ hi ∧ hi < 0xDC00 then
      if 0xDC00 ≤ lo ∧ lo < 0xE000 then
        (charsOf? rest).map
          (Char.ofNat (0x10000 + (hi - 0xD800) * 0x400 + (lo - 0xDC00)) :: ·)
      else none
    else if 0xDC00 ≤ hi ∧ hi < 0xE000 then none
    else (charsOf? (.unit lo :: rest)).map (Char.ofNat hi :: ·)
  | .unit n :: rest =>
    if 0xD800 ≤ n ∧ n < 0xE000 then none
    else (charsOf? rest).map (Char.ofNat n :: ·)

def stringOf? (parts : List StringPart) : Option String := (charsOf? parts).map String.ofList

/-- Digits taken into a significand below `2^64`, and how many of them were left out. -/
def takeDigits (significand : Nat) : List Char → Nat × Nat
  | [] => (significand, 0)
  | d :: ds =>
    let next := significand * 10 + digitValue d
    if next < Nat.pow 2 64 then takeDigits next ds else (significand, ds.length + 1)

def power (n : Nat) : Binary64 := .ofNat (Nat.pow 10 n)

/-- A significand times a power of ten within the range of doubles, in steps of at most
`10^308`. -/
def scale : Nat → Binary64 → Int → Option Binary64
  | 0, x, _ => some x
  | fuel + 1, x, e =>
    if e.natAbs ≤ 308 then
      let y := if 0 ≤ e then x * power e.toNat else x / power (-e).toNat
      if y.isFinite then some y else none
    else if x.isZero then some x
    else if 0 ≤ e then none
    else scale fuel (x / power 308) (e + 308)

/-- The exponent past which a number is zero or out of range whatever its digits. -/
def exponentLimit : Nat := Nat.pow 2 31 - 1

/-- A double from its sign, its significand and its exponent of ten. The significand is rounded
to a double first and scaled after that. -/
def doubleOf? (negative : Bool) (significand : Nat) (exponent : Int) : Option Binary64 :=
  let x := (scale (exponent.natAbs / 308 + 1) (.ofNat significand) exponent)
  x.map fun x => if negative then -x else x

/-- The exponent part of a number. A number with digits and a huge exponent is out of range. -/
def exponentOf? (significand : Nat) : Option (Bool × List Char) → Option Int
  | none => some 0
  | some (minus, ds) =>
    let n := digitsValue ds
    if n ≤ exponentLimit then some (if minus then -(n : Int) else n)
    else if minus then some (-(exponentLimit : Int))
    else if significand = 0 then some 0
    else none

/-- Of a number with a point or an exponent, or too long for an integer, as many digits count as
fit into 64 bits. -/
def NumberText.double? (n : NumberText) : Option Binary64 := do
  let (significand, dropped) := takeDigits 0 n.whole
  let (significand, unread) := takeDigits significand n.fraction
  let e ← exponentOf? significand n.exponent
  let places : Int := n.fraction.length - unread
  doubleOf? n.negative significand ((dropped : Int) - places + e)

def NumberText.number? (n : NumberText) : Option Number :=
  let isWhole := n.fraction.isEmpty && n.exponent.isNone
  let w := digitsValue n.whole
  if isWhole && !n.negative && decide (w < Nat.pow 2 64) then some (.integer w)
  else if isWhole && n.negative && decide (0 < w ∧ w ≤ Nat.pow 2 63) then
    some (.integer (-(w : Int)))
  else n.double?.map .double

/-! ## Values -/

def maxDepth : Nat := 127

mutual

/-- The value of a piece of syntax inside of which `depth` more levels may open. -/
def Syntax.valueWithin? (depth : Nat) : Syntax → Option Value
  | .null => some .null
  | .bool b => some (.bool b)
  | .number n => n.number?.map .number
  | .string parts => (stringOf? parts).map .text
  | .array items =>
    match depth with
    | 0 => none
    | depth + 1 => (itemsWithin? depth items).map .array
  | .object fields =>
    match depth with
    | 0 => none
    | depth + 1 => (fieldsWithin? depth fields).map fun fs => .object (Fields.ofPairs fs)

def itemsWithin? (depth : Nat) : List Syntax → Option (List Value)
  | [] => some []
  | s :: rest => do
    let v ← s.valueWithin? depth
    let vs ← itemsWithin? depth rest
    some (v :: vs)

def fieldsWithin? (depth : Nat) : List (List StringPart × Syntax) → Option (List (String × Value))
  | [] => some []
  | (name, s) :: rest => do
    let name ← stringOf? name
    let v ← s.valueWithin? depth
    let vs ← fieldsWithin? depth rest
    some ((name, v) :: vs)

end

def Syntax.value? (s : Syntax) : Option Value := s.valueWithin? maxDepth

/-- The value of a JSON text. -/
def Value.parse? (text : String) : Option Value := (Syntax.parse? text.toList).bind Syntax.value?

end FormLetter.Json
