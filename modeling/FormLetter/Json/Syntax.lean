import FormLetter.Number.Decimal
import FormLetter.Number.Hexadecimal
import FormLetter.Text.Pattern

/-!
# JSON syntax

`Syntax` is JSON text as it is written: numbers are digits, strings may hold escapes that stand
for no character, objects may repeat a name, and nothing limits the nesting. `Syntax.parse?`
cuts the text into tokens and runs them through a machine that keeps the open arrays and objects
on a stack.
-/

namespace FormLetter.Json

open FormLetter.Number FormLetter.Text

/-- A character of a string, or a `\u` escape with its 16-bit unit. -/
inductive StringPart where
  | char (c : Char)
  | unit (n : Nat)
  deriving DecidableEq, Repr

/-- The digits of a number. An exponent has its sign, minus or not. -/
structure NumberText where
  negative : Bool
  whole : List Char
  fraction : List Char
  exponent : Option (Bool × List Char)
  deriving DecidableEq, Repr

inductive Syntax where
  | null
  | bool (b : Bool)
  | number (n : NumberText)
  | string (parts : List StringPart)
  | array (items : List Syntax)
  | object (fields : List (List StringPart × Syntax))
  deriving Repr, Inhabited

inductive Token where
  | openArray
  | closeArray
  | openObject
  | closeObject
  | colon
  | comma
  | atom (s : Syntax)
  deriving Repr

def isLayout (c : Char) : Bool := c == ' ' || c == '\t' || c == '\n' || c == '\r'

/-- The character that a backslash and a letter stand for. -/
def simpleEscape? (c : Char) : Option Char :=
  if c = '"' ∨ c = '\\' ∨ c = '/' then some c
  else if c = 'b' then some '\x08'
  else if c = 'f' then some '\x0c'
  else if c = 'n' then some '\n'
  else if c = 'r' then some '\r'
  else if c = 't' then some '\t'
  else none

/-- The rest of a string after its opening quote, and what follows the closing one. -/
def readString : List Char → Option (List StringPart × List Char)
  | [] => none
  | '"' :: cs => some ([], cs)
  | '\\' :: 'u' :: a :: b :: c :: d :: cs => do
    let a ← hexValue? a
    let b ← hexValue? b
    let c ← hexValue? c
    let d ← hexValue? d
    let (parts, rest) ← readString cs
    some (.unit (((a * 16 + b) * 16 + c) * 16 + d) :: parts, rest)
  | '\\' :: e :: cs => do
    let c ← simpleEscape? e
    let (parts, rest) ← readString cs
    some (.char c :: parts, rest)
  | c :: cs =>
    if c.toNat < 0x20 ∨ c = '\\' then none
    else do
      let (parts, rest) ← readString cs
      some (.char c :: parts, rest)

/-- The part of a number before its point: a lone zero, or digits that start with another. -/
def readWhole : List Char → Option (List Char × List Char)
  | '0' :: cs => some (['0'], cs)
  | cs => match run isDigit cs with
    | ([], _) => none
    | r => some r

def readFraction : List Char → Option (List Char × List Char)
  | '.' :: cs => match run isDigit cs with
    | ([], _) => none
    | r => some r
  | cs => some ([], cs)

def readExponent : List Char → Option (Option (Bool × List Char) × List Char)
  | c :: cs =>
    if c = 'e' ∨ c = 'E' then
      let (minus, cs) := takeSign cs
      match run isDigit cs with
      | ([], _) => none
      | (ds, rest) => some (some (minus, ds), rest)
    else some (none, c :: cs)
  | [] => some (none, [])

def readNumber (cs : List Char) : Option (NumberText × List Char) := do
  let (negative, cs) := match cs with
    | '-' :: cs => (true, cs)
    | cs => (false, cs)
  let (whole, cs) ← readWhole cs
  let (fraction, cs) ← readFraction cs
  let (exponent, cs) ← readExponent cs
  some (⟨negative, whole, fraction, exponent⟩, cs)

/-- The token at the front of a text that starts with no white space. -/
def readToken : List Char → Option (Token × List Char)
  | '[' :: cs => some (.openArray, cs)
  | ']' :: cs => some (.closeArray, cs)
  | '\x7b' :: cs => some (.openObject, cs)
  | '\x7d' :: cs => some (.closeObject, cs)
  | ':' :: cs => some (.colon, cs)
  | ',' :: cs => some (.comma, cs)
  | '"' :: cs => (readString cs).map fun (parts, rest) => (.atom (.string parts), rest)
  | 'n' :: 'u' :: 'l' :: 'l' :: cs => some (.atom .null, cs)
  | 't' :: 'r' :: 'u' :: 'e' :: cs => some (.atom (.bool true), cs)
  | 'f' :: 'a' :: 'l' :: 's' :: 'e' :: cs => some (.atom (.bool false), cs)
  | cs => (readNumber cs).map fun (n, rest) => (.atom (.number n), rest)

/-- The tokens of a text, in at most `fuel` steps. -/
def tokensWithin : Nat → List Char → Option (List Token)
  | 0, _ => none
  | fuel + 1, cs =>
    match cs.dropWhile isLayout with
    | [] => some []
    | c :: cs => do
      let (token, rest) ← readToken (c :: cs)
      let tokens ← tokensWithin fuel rest
      some (token :: tokens)

def tokens? (cs : List Char) : Option (List Token) := tokensWithin (cs.length + 1) cs

/-! ## The machine -/

/-- An open array, or an open object and the name whose value comes next. What is complete in
it stands last first. -/
inductive Frame where
  | array (items : List Syntax)
  | object (fields : List (List StringPart × Syntax)) (name : List StringPart)
  deriving Repr

/-- What the machine waits for. `first` says that nothing has been read since the opening
bracket, so that the closing one may follow. -/
inductive State where
  | value (stack : List Frame) (first : Bool)
  | field (stack : List Frame) (fields : List (List StringPart × Syntax)) (first : Bool)
  | colon (stack : List Frame) (fields : List (List StringPart × Syntax)) (name : List StringPart)
  | after (stack : List Frame) (value : Syntax)
  deriving Repr

def closeArray (stack : List Frame) (items : List Syntax) : State :=
  .after stack (.array items.reverse)

def closeObject (stack : List Frame) (fields : List (List StringPart × Syntax)) : State :=
  .after stack (.object fields.reverse)

def State.step : State → Token → Option State
  | .value stack _, .openArray => some (.value (.array [] :: stack) true)
  | .value stack _, .openObject => some (.field stack [] true)
  | .value stack _, .atom s => some (.after stack s)
  | .value (.array [] :: stack) true, .closeArray => some (closeArray stack [])
  | .field stack fields _, .atom (.string name) => some (.colon stack fields name)
  | .field stack fields true, .closeObject => some (closeObject stack fields)
  | .colon stack fields name, .colon => some (.value (.object fields name :: stack) false)
  | .after (.array items :: stack) v, .comma => some (.value (.array (v :: items) :: stack) false)
  | .after (.array items :: stack) v, .closeArray => some (closeArray stack (v :: items))
  | .after (.object fields name :: stack) v, .comma =>
    some (.field stack ((name, v) :: fields) false)
  | .after (.object fields name :: stack) v, .closeObject =>
    some (closeObject stack ((name, v) :: fields))
  | _, _ => none

/-- Reads a JSON text with white space around it. -/
def Syntax.parse? (cs : List Char) : Option Syntax := do
  let tokens ← tokens? cs
  match ← tokens.foldlM State.step (.value [] false) with
  | .after [] v => some v
  | _ => none

end FormLetter.Json
