import FormLetter.Number.Binary64

/-!
# Decimal numerals

A finite binary64 number is written in two ways: `fixed` rounds its exact value to a count of
decimal places, `shortest` finds the fewest digits that read back as the same number.
`Numeral` is a numeral that was read, `±digits · 10^exponent`, and `Numeral.parse?` reads one
from text: digits with an optional point and an optional exponent.
-/

namespace FormLetter.Number

/-- The decimal digits of a natural number, without leading zeros. -/
def decimalDigits (n : Nat) : List Char := Nat.toDigits 10 n

def digitValue (c : Char) : Nat := c.toNat - '0'.toNat

def digitsValue (cs : List Char) : Nat := cs.foldl (fun n c => 10 * n + digitValue c) 0

/-- `n` in decimal, with zeros in front up to `width` digits. -/
def zeroPadded (width n : Nat) : List Char :=
  let ds := decimalDigits n
  List.replicate (width - ds.length) '0' ++ ds

/-- The integer and fraction digits of `n / d` rounded to `places` decimals, ties to even. -/
def fixedDigits (n d places : Nat) : List Char × List Char :=
  let scaled := roundDiv (n * Nat.pow 10 places) d
  let ds := zeroPadded (places + 1) scaled
  ds.splitAt (ds.length - places)

/-- The magnitude of a number with a fixed count of decimals: its integer part, and its
fraction. A number that is not finite has its name for an integer part. -/
def Binary64.fixed (x : Binary64) (places : Nat) : List Char × List Char :=
  match x with
  | .finite _ m e => fixedDigits (m * Nat.pow 2 e.toNat) (Nat.pow 2 (-e).toNat) places
  | .infinity _ => ("inf".toList, [])
  | .nan => ("NaN".toList, [])

/-- The reals that round to `m · 2^e`, and that number itself, over the unit `2^(e - 2)`: from
`lo` to `hi`, the ends included when `m` is even. -/
structure RoundingInterval where
  lo : Nat
  mid : Nat
  hi : Nat
  closed : Bool

def RoundingInterval.of (m : Nat) (e : Int) : RoundingInterval where
  lo := if m = Nat.pow 2 52 ∧ Binary64.minExponent < e then 4 * m - 1 else 4 * m - 2
  mid := 4 * m
  hi := 4 * m + 2
  closed := m % 2 = 0

/-- Whether `n / d` is in the interval whose unit is `up / down`. -/
def RoundingInterval.contains (i : RoundingInterval) (up down n d : Nat) : Bool :=
  let x := n * down
  let lo := i.lo * up * d
  let hi := i.hi * up * d
  if i.closed then decide (lo ≤ x ∧ x ≤ hi) else decide (lo < x ∧ x < hi)

/-- The exponent of the leading decimal digit of `n / d`. -/
def leadingExponent (n d : Nat) : Int :=
  if d ≤ n then (decimalDigits (n / d)).length - 1
  else -((decimalDigits ((d + n - 1) / n - 1)).length : Int)

/-- The point of the grid `10^k` that is in the interval and nearest to its middle, a tie going
to the even one. -/
def gridPoint? (i : RoundingInterval) (up down : Nat) (k : Int) : Option Nat :=
  let num := i.mid * up * Nat.pow 10 (-k).toNat
  let den := down * Nat.pow 10 k.toNat
  let inside (p : Nat) := i.contains up down (p * Nat.pow 10 k.toNat) (Nat.pow 10 (-k).toNat)
  let near := roundDiv num den
  if inside near then some near else
  let below := num / den
  if inside below then some below
  else if inside (below + 1) then some (below + 1) else none

/-- Tries `count` grids, each ten times finer than the one before. -/
def shortestOnGrids (i : RoundingInterval) (up down : Nat) : Nat → Int → Nat × Int
  | 0, k => (i.mid * up / down, k)
  | count + 1, k =>
    match gridPoint? i up down k with
    | some p => (p, k)
    | none => shortestOnGrids i up down count (k - 1)

/-- Moves trailing zeros of the digits into the exponent. -/
def trimZeros : Nat → Nat → Int → Nat × Int
  | 0, n, k => (n, k)
  | fuel + 1, n, k => if n % 10 = 0 ∧ n ≠ 0 then trimZeros fuel (n / 10) (k + 1) else (n, k)

/-- The shortest decimal `digits · 10^k` that rounds to `m · 2^e`; of several of that length the
nearest. -/
def shortest (m : Nat) (e : Int) : Nat × Int :=
  let i := RoundingInterval.of m e
  let up := Nat.pow 2 (e - 2).toNat
  let down := Nat.pow 2 (2 - e).toNat
  let (n, k) := shortestOnGrids i up down 18 (leadingExponent (i.mid * up) down)
  trimZeros 18 n k

/-! ## Reading -/

/-- A decimal numeral: `±digits · 10^exponent`. -/
structure Numeral where
  negative : Bool
  digits : Nat
  exponent : Int
  deriving DecidableEq, Repr

/-- An exponent whose power of ten is past both ends of the range whatever the digits. -/
def Numeral.clamp (n : Numeral) (length : Nat) : Numeral :=
  { n with exponent := max (-(length : Int) - 400) (min 400 n.exponent) }

def Numeral.toBinary64 (n : Numeral) : Binary64 :=
  let n := n.clamp (decimalDigits n.digits).length
  .ofScientific n.negative n.digits n.exponent

def isDigit (c : Char) : Bool := '0' ≤ c && c ≤ '9'

/-- A sign, if the text starts with one: whether it is a minus, and what follows. -/
def takeSign : List Char → Bool × List Char
  | '-' :: cs => (true, cs)
  | '+' :: cs => (false, cs)
  | cs => (false, cs)

/-- An exponent part up to the end of the text; none at all is an exponent of zero. -/
def exponentPart? : List Char → Option Int
  | [] => some 0
  | c :: cs =>
    if c = 'e' ∨ c = 'E' then
      let (minus, ds) := takeSign cs
      if ds.isEmpty ∨ !ds.all isDigit then none
      else
        let n := (digitsValue ds : Int)
        some (if minus then -n else n)
    else none

/-- A numeral that fills the text: an optional sign, digits with an optional point, of which at
least one digit on either side, and an optional exponent. -/
def Numeral.parse? (cs : List Char) : Option Numeral := do
  let (minus, cs) := takeSign cs
  let whole := cs.takeWhile isDigit
  let cs := cs.dropWhile isDigit
  let (fraction, cs) := match cs with
    | '.' :: cs => (cs.takeWhile isDigit, cs.dropWhile isDigit)
    | cs => ([], cs)
  if whole.isEmpty ∧ fraction.isEmpty then none
  let e ← exponentPart? cs
  some ⟨minus, digitsValue (whole ++ fraction), e - fraction.length⟩

/-- A natural number below `2^64`: digits, with a plus sign in front or without. -/
def readWord? (cs : List Char) : Option Nat :=
  let ds := match cs with
    | '+' :: ds => ds
    | ds => ds
  if ds.isEmpty ∨ !ds.all isDigit then none
  else if digitsValue ds < Nat.pow 2 64 then some (digitsValue ds) else none

end FormLetter.Number
