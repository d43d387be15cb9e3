import FormLetter.Filter.Basic

/-!
# Template errors

What can be wrong with a template, or with the data that it meets.
-/

namespace FormLetter

inductive TemplateError where
  /-- A loop starts where no block is around it. -/
  | misplacedLoop (marker : String)
  /-- No marker ends the loop. -/
  | unclosedLoop (collection : String)
  | unknownFilter (name : String)
  /-- A literal of the tag has no closing asterisk. -/
  | unterminatedLiteral (tag : String)
  | filter (name : String) (cause : FilterError)
  deriving DecidableEq, Repr

def TemplateError.message : TemplateError → String
  | .misplacedLoop marker =>
    "Foreach is incorrectly placed: '" ++ marker ++ "' has no enclosing block"
  | .unclosedLoop collection => "Ending foreach tag not found for '" ++ collection ++ "'"
  | .unknownFilter name => "There is no such filter '" ++ name ++ "'"
  | .unterminatedLiteral tag =>
    "Malformed tag '\x7b" ++ tag ++ "\x7d': unterminated literal"
  | .filter name cause => "Filter '" ++ name ++ "' failed: " ++ cause.message

end FormLetter
