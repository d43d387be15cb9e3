import FormLetter.Number.Decimal
import FormLetter.Number.Hexadecimal
import FormLetter.Text.Pattern

/-!
# References in markup

`escape` writes the five characters that mean something in markup as references by name, and
`unescape?` reads references, by name or by number, back. A reference starts at `&` and ends at
`;`. There are no names but the five, and no character has the number 0.
-/

namespace FormLetter.Xml

open FormLetter.Number FormLetter.Text

/-- What is written for a character. -/
def escapeChar (c : Char) : List Char :=
  if c = '<' then "&lt;".toList
  else if c = '>' then "&gt;".toList
  else if c = '&' then "&amp;".toList
  else if c = '\'' then "&apos;".toList
  else if c = '"' then "&quot;".toList
  else [c]

def escape (cs : List Char) : List Char := cs.flatMap escapeChar

def ofNumber? (n : Nat) : Option Char :=
  if n ≠ 0 ∧ n.isValidChar then some (Char.ofNat n) else none

def hexNumber? (cs : List Char) : Option Nat :=
  if cs.length ≤ 6 then
    cs.foldlM (fun n c => (hexValue? c).map (16 * n + ·)) 0
  else none

def decimalNumber? (cs : List Char) : Option Nat :=
  if cs.length ≤ 7 ∧ cs.all isDigit then some (digitsValue cs) else none

/-- The character that a reference stands for, given what is between `&` and `;`. -/
def referenced? : List Char → Option Char
  | '#' :: 'x' :: digits => (hexNumber? digits).bind ofNumber?
  | '#' :: digits => (decimalNumber? digits).bind ofNumber?
  | name =>
    if name = "lt".toList then some '<'
    else if name = "gt".toList then some '>'
    else if name = "amp".toList then some '&'
    else if name = "apos".toList then some '\''
    else if name = "quot".toList then some '"'
    else none

def isReferenceChar (c : Char) : Bool := c != '&' && c != ';'

/-- The text with its references read; none if one of them stands for no character or is not
closed. -/
def unescape? : List Char → Option (List Char)
  | [] => some []
  | c :: cs =>
    if c = '&' then
      match _ : enclosed? isReferenceChar ';' cs with
      | none => none
      | some (name, rest) => do
        let c ← referenced? name
        let cs ← unescape? rest
        return c :: cs
    else (unescape? cs).map (c :: ·)
termination_by cs => cs.length
decreasing_by
  · have := enclosed?_shorter ‹_›
    simp only [List.length_cons]
    omega
  · simp

end FormLetter.Xml
