import FormLetter.Context

/-!
# Filters

A filter makes text of its arguments and of the value that is piped in, if one is.
-/

namespace FormLetter

open FormLetter.Json

/-- Why a filter gives no text. -/
inductive FilterError where
  | arguments (expected : String) (got : Nat)
  | missingInput
  | invalidNumber (text : String)
  | unknownProfile (name : String)
  | invalidDate (text : String)
  | invalidFormat (format : String)
  deriving DecidableEq, Repr

def FilterError.message : FilterError → String
  | .arguments expected got => "expects " ++ expected ++ " argument(s), got " ++ toString got
  | .missingInput => "needs a value, either as an argument or piped in"
  | .invalidNumber text => "'" ++ text ++ "' is not a number"
  | .unknownProfile name => "unknown number profile '" ++ name ++ "'"
  | .invalidDate text => "'" ++ text ++ "' is not a recognised date"
  | .invalidFormat format => "invalid format '" ++ format ++ "'"

structure Filter where
  name : String
  apply : Context → List Value → Option Value → Except FilterError String

end FormLetter
