import FormLetter.Number.Rounding

/-!
# Binary64 numbers

A `Binary64` is a floating-point number of 53 significant bits, written out in integers:
`finite s m e` is `±m · 2^e`. `ofRatio` rounds a quotient of integers to the nearest such
number, ties to even; every arithmetic operation is the exact result so rounded.
-/

namespace FormLetter.Number

/-- `finite true m e` is `-(m · 2^e)`; `m` has at most 53 bits and `-1074 ≤ e ≤ 971`. -/
inductive Binary64 where
  | finite (negative : Bool) (significand : Nat) (exponent : Int)
  | infinity (negative : Bool)
  | nan
  deriving DecidableEq, Repr

namespace Binary64

def minExponent : Int := -1074

def maxExponent : Int := 971

def zero (negative : Bool) : Binary64 := .finite negative 0 minExponent

instance : Inhabited Binary64 := ⟨zero false⟩

def reaches (n d : Nat) (e : Int) : Bool :=
  decide (d * Nat.pow 2 e.toNat ≤ n * Nat.pow 2 (-e).toNat)

/-- The exponent of the unit in the last place of `n / d`. -/
def unitExponent (n d : Nat) : Int :=
  let top : Int := (n.log2 : Int) - d.log2
  let floorLog := if reaches n d top then top else top - 1
  max (floorLog - 52) minExponent

/-- The nearest binary64 number to `±n / d`, ties to even. -/
def ofRatio (negative : Bool) (n d : Nat) : Binary64 :=
  if n = 0 then zero negative else
  let e := unitExponent n d
  let m := roundDiv (n * Nat.pow 2 (-e).toNat) (d * Nat.pow 2 e.toNat)
  let (m, e) := if m = Nat.pow 2 53 then (Nat.pow 2 52, e + 1) else (m, e)
  if maxExponent < e then .infinity negative else .finite negative m e

def ofNat (n : Nat) : Binary64 := ofRatio false n 1

def ofInt (i : Int) : Binary64 := ofRatio (decide (i < 0)) i.natAbs 1

/-- `±digits · 10^exponent`, rounded once. -/
def ofScientific (negative : Bool) (digits : Nat) (exponent : Int) : Binary64 :=
  ofRatio negative (digits * Nat.pow 10 exponent.toNat) (Nat.pow 10 (-exponent).toNat)

def isFinite : Binary64 → Bool
  | .finite .. => true
  | _ => false

def isZero : Binary64 → Bool
  | .finite _ 0 _ => true
  | _ => false

/-- Below zero; a negative zero is not. -/
def isNegative : Binary64 → Bool
  | .finite s m _ => s && m != 0
  | .infinity s => s
  | .nan => false

def neg : Binary64 → Binary64
  | .finite s m e => .finite (!s) m e
  | .infinity s => .infinity (!s)
  | .nan => .nan

def abs : Binary64 → Binary64
  | .finite _ m e => .finite false m e
  | .infinity _ => .infinity false
  | .nan => .nan

def mul : Binary64 → Binary64 → Binary64
  | .finite s m e, .finite t n f =>
    ofRatio (s != t) (m * n * Nat.pow 2 (e + f).toNat) (Nat.pow 2 (-(e + f)).toNat)
  | .infinity s, .finite t n _ => if n = 0 then .nan else .infinity (s != t)
  | .finite s m _, .infinity t => if m = 0 then .nan else .infinity (s != t)
  | .infinity s, .infinity t => .infinity (s != t)
  | .nan, _ => .nan
  | _, .nan => .nan

def div : Binary64 → Binary64 → Binary64
  | .finite s m e, .finite t n f =>
    if n = 0 then (if m = 0 then .nan else .infinity (s != t))
    else ofRatio (s != t) (m * Nat.pow 2 (e - f).toNat) (n * Nat.pow 2 (f - e).toNat)
  | .infinity s, .finite t _ _ => .infinity (s != t)
  | .finite s _ _, .infinity t => zero (s != t)
  | .infinity _, .infinity _ => .nan
  | .nan, _ => .nan
  | _, .nan => .nan

instance : Mul Binary64 := ⟨mul⟩
instance : Div Binary64 := ⟨div⟩
instance : Neg Binary64 := ⟨neg⟩

/-- The nearest integral number, a half going away from zero. -/
def round : Binary64 → Binary64
  | .finite s m e =>
    if 0 ≤ e then .finite s m e else ofRatio s (roundHalfUp m (Nat.pow 2 (-e).toNat)) 1
  | x => x

/-- The greatest integer that is not above a finite number. -/
def floor? : Binary64 → Option Int
  | .finite s m e =>
    let m : Int := if s then -(m : Int) else m
    some ((m * Nat.pow 2 e.toNat).fdiv (Nat.pow 2 (-e).toNat))
  | _ => none

/-- The number a 64-bit word encodes: sign, 11 bits of exponent, 52 of fraction. -/
def ofBits (w : Nat) : Binary64 :=
  let s := decide (w / Nat.pow 2 63 % 2 = 1)
  let field : Nat := w / Nat.pow 2 52 % Nat.pow 2 11
  let fraction : Nat := w % Nat.pow 2 52
  if field = 2047 then (if fraction = 0 then .infinity s else .nan)
  else if field = 0 then .finite s fraction minExponent
  else .finite s (Nat.pow 2 52 + fraction) ((field : Int) - 1075)

def signBit (negative : Bool) : Nat := if negative then Nat.pow 2 63 else 0

def toBits : Binary64 → Nat
  | .finite s m e =>
    signBit s + (if m < Nat.pow 2 52 then m
      else (e + 1075).toNat * Nat.pow 2 52 + (m - Nat.pow 2 52))
  | .infinity s => signBit s + 2047 * Nat.pow 2 52
  | .nan => 2047 * Nat.pow 2 52 + Nat.pow 2 51

end Binary64

end FormLetter.Number
