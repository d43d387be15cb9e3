import FormLetter.Json.Value
import FormLetter.Number.Hexadecimal

/-!
# Writing JSON

`Value.compact` has no white space, `Value.pretty` puts each item on a line of its own. A double
has the fewest digits that read back, and is written with an exponent where it is very large or
very small. In strings only quotes, backslashes and control characters are escaped.
-/

namespace FormLetter.Json

open FormLetter.Number

def escapeChar (c : Char) : List Char :=
  if c = '"' then ['\\', '"']
  else if c = '\\' then ['\\', '\\']
  else if c = '\x08' then ['\\', 'b']
  else if c = '\x0c' then ['\\', 'f']
  else if c = '\n' then ['\\', 'n']
  else if c = '\r' then ['\\', 'r']
  else if c = '\t' then ['\\', 't']
  else if c.toNat < 0x20 then
    ['\\', 'u', '0', '0', hexDigit (c.toNat / 16), hexDigit c.toNat]
  else [c]

def quote (s : String) : String :=
  String.ofList ('"' :: s.toList.flatMap escapeChar ++ ['"'])

/-- Where a double is written in positional notation: its point lies between these two places,
counted from the first digit. -/
structure PointRange where
  least : Int
  greatest : Int

/-- Positional notation from `0.00001` to below `10^16`. -/
def positional : PointRange := ⟨-4, 16⟩

/-- `digits · 10^k`, laid out with a point or with an exponent. -/
def layOut (digits : List Char) (k : Int) : List Char :=
  let length : Int := digits.length
  let point := k + length
  if positional.least ≤ point ∧ point ≤ positional.greatest then
    if 0 ≤ k then digits ++ List.replicate k.toNat '0' ++ ['.', '0']
    else if 0 < point then digits.take point.toNat ++ '.' :: digits.drop point.toNat
    else '0' :: '.' :: List.replicate (-point).toNat '0' ++ digits
  else
    let e := point - 1
    let sign := if e < 0 then '-' else '+'
    let mantissa := match digits with
      | [] => []
      | [d] => [d]
      | d :: ds => d :: '.' :: ds
    mantissa ++ 'e' :: sign :: decimalDigits e.natAbs

/-- The text of a finite double. -/
def doubleText : Binary64 → List Char
  | .finite s m e =>
    let sign := if s then ['-'] else []
    if m = 0 then sign ++ ['0', '.', '0']
    else
      let (n, k) := shortest m e
      sign ++ layOut (decimalDigits n) k
  | _ => "null".toList

def Number.text : Number → String
  | .integer i => toString i
  | .double d => String.ofList (doubleText d)

mutual

/-- JSON text without white space. -/
def Value.compact : Value → String
  | .null => "null"
  | .bool b => if b then "true" else "false"
  | .number n => n.text
  | .text s => quote s
  | .array items => "[" ++ compactItems items ++ "]"
  | .object fields => "\x7b" ++ compactFields fields ++ "\x7d"

def compactItems : List Value → String
  | [] => ""
  | [v] => v.compact
  | v :: rest => v.compact ++ "," ++ compactItems rest

def compactFields : List (String × Value) → String
  | [] => ""
  | [(k, v)] => quote k ++ ":" ++ v.compact
  | (k, v) :: rest => quote k ++ ":" ++ v.compact ++ "," ++ compactFields rest

end

def newLine (level : Nat) : String := "\n" ++ String.ofList (List.replicate (2 * level) ' ')

mutual

/-- JSON text with a line for every item, at a level of indentation. -/
def Value.prettyAt (level : Nat) : Value → String
  | .array [] => "[]"
  | .array items => "[" ++ prettyItems (level + 1) items ++ newLine level ++ "]"
  | .object [] => "\x7b\x7d"
  | .object fields => "\x7b" ++ prettyFields (level + 1) fields ++ newLine level ++ "\x7d"
  | .null => "null"
  | .bool b => if b then "true" else "false"
  | .number n => n.text
  | .text s => quote s

def prettyItems (level : Nat) : List Value → String
  | [] => ""
  | [v] => newLine level ++ v.prettyAt level
  | v :: rest => newLine level ++ v.prettyAt level ++ "," ++ prettyItems level rest

def prettyFields (level : Nat) : List (String × Value) → String
  | [] => ""
  | [(k, v)] => newLine level ++ quote k ++ ": " ++ v.prettyAt level
  | (k, v) :: rest =>
    newLine level ++ quote k ++ ": " ++ v.prettyAt level ++ "," ++ prettyFields level rest

end

def Value.pretty (v : Value) : String := v.prettyAt 0

end FormLetter.Json
