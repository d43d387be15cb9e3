import FormLetter.Filter.Basic
import FormLetter.Text.Blank

/-!
# The number filter

`number` prints a number with a fixed count of decimals, the integer part in groups of three. A
profile names the two separators. The value is scaled by a power of ten, rounded, a half away
from zero, and scaled back, each step in binary64.
-/

namespace FormLetter

open FormLetter.Json FormLetter.Number

/-- The number that a value is or spells; white space around it does not count. -/
def Json.Value.asNumber? : Value → Option Binary64
  | .number n => some n.toBinary64
  | .text s => do
    let n ← Numeral.parse? (Text.trim s.toList)
    let x := n.toBinary64
    if x.isFinite then some x else none
  | _ => none

/-- What stands before the decimals, and between groups of three digits. -/
structure NumberProfile where
  decimal : String
  thousands : String
  deriving DecidableEq, Repr

def NumberProfile.named? (name : String) : Option NumberProfile :=
  if name = "eu" then some ⟨",", " "⟩
  else if name = "eu2" then some ⟨",", "."⟩
  else if name = "en" then some ⟨".", ","⟩
  else none

/-- The most decimals that are printed. -/
def maxDecimals : Nat := 15

/-- Digits with a separator before every full group of three but the first. -/
def groupThousands (separator : List Char) : List Char → List Char
  | [] => []
  | d :: ds =>
    let rest := groupThousands separator ds
    if ds.length % 3 = 0 ∧ !ds.isEmpty then d :: separator ++ rest else d :: rest

/-- A number with a fixed count of decimals, at most `maxDecimals`. -/
def formatNumber (x : Binary64) (decimals : Nat) (profile : NumberProfile) : String :=
  let decimals := min decimals maxDecimals
  let factor := Binary64.ofNat (Nat.pow 10 decimals)
  let rounded := (x * factor).round / factor
  let (whole, fraction) := rounded.abs.fixed decimals
  let sign := if rounded.isNegative then ['-'] else []
  let tail := if fraction.isEmpty then [] else profile.decimal.toList ++ fraction
  String.ofList (sign ++ groupThousands profile.thousands.toList whole ++ tail)

/-- A count of decimals, from zero to `maxDecimals`. -/
def decimals? (v : Value) : Except FilterError Nat :=
  match readWord? (Text.trim v.plain.toList) with
  | some n => if n ≤ maxDecimals then .ok n else .error (.invalidNumber v.plain)
  | none => .error (.invalidNumber v.plain)

/-- The arguments are profile, decimals and value; the value may be piped in instead. -/
def Filter.number : Filter where
  name := "number"
  apply _ arguments input := do
    let value ← match arguments with
      | [] | [_] | [_, _] => match input with
        | some v => .ok v
        | none => .error .missingInput
      | [_, _, v] => .ok v
      | _ => .error (.arguments "at most 3" arguments.length)
    if value.isBlank then return ""
    let name := match arguments with
      | profile :: _ => profile.plain
      | [] => "en"
    let profile ← match NumberProfile.named? name with
      | some p => .ok p
      | none => .error (.unknownProfile name)
    let decimals ← match arguments with
      | _ :: d :: _ => decimals? d
      | _ => .ok 0
    match value.asNumber? with
    | some x => return formatNumber x decimals profile
    | none => throw (.invalidNumber value.plain)

end FormLetter
