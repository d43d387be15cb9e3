import FormLetter.Number.Decimal
import FormLetter.Fields

/-!
# JSON values

A number is an integer or a double, and the two are told apart: `1` and `1.0` are different
values. The fields of an object keep their order.
-/

namespace FormLetter.Json

open FormLetter.Number

inductive Number where
  | integer (i : Int)
  | double (d : Binary64)
  deriving DecidableEq, Repr, Inhabited

/-- The number as a double, rounded if it has to be. -/
def Number.toBinary64 : Number → Binary64
  | .integer i => .ofInt i
  | .double d => d

inductive Value where
  | null
  | bool (b : Bool)
  | number (n : Number)
  | text (s : String)
  | array (items : List Value)
  | object (fields : List (String × Value))
  deriving Repr, Inhabited

def Value.nat (n : Nat) : Value := .number (.integer n)

def Value.isNull : Value → Bool
  | .null => true
  | _ => false

end FormLetter.Json
