import FormLetter.Error
import FormLetter.Filter.Registry
import FormLetter.Tag.Token

/-!
# Expressions

The content of a tag is a pipeline of segments. Each sets the value of the pipeline: to a
variable, to a literal, or to what a filter makes of its arguments and of the value so far. A word
is a filter if it is registered and has something to work on, arguments or a value piped in;
else it is a variable.
-/

namespace FormLetter.Tag

inductive Argument where
  | variable (path : String)
  | literal (text : String)
  deriving DecidableEq, Repr

inductive Segment where
  | variable (path : String)
  | literal (text : String)
  | call (filter : String) (arguments : List Argument)
  deriving DecidableEq, Repr

structure Expression where
  segments : List Segment
  deriving DecidableEq, Repr

/-- A word among arguments is a literal. -/
def Token.toArgument : Token → Argument
  | .variable path => .variable path
  | .literal text => .literal text
  | .word text => .literal text

/-- Whether the head of a segment names a filter to call. `piped` says that a value comes from
the segment before. -/
def Token.isCall (registry : Registry) (piped : Bool) (arguments : List Token) : Token → Bool
  | .word name => registry.contains name && (piped || !arguments.isEmpty)
  | _ => false

/-- A head that takes arguments but is no filter, as the message names it. -/
def Token.spelling : Token → String
  | .variable path => "$" ++ path
  | .literal text => text
  | .word text => text

/-- The segment of a head without arguments that is not a call. -/
def Token.toSegment : Token → Segment
  | .literal text => .literal text
  | .variable path => .variable path
  | .word path => .variable path

def Token.name : Token → String
  | .variable path => path
  | .literal text => text
  | .word text => text

/-- The segment of a head and its arguments. -/
def Segment.ofTokens (registry : Registry) (piped : Bool) (head : Token)
    (arguments : List Token) : Except TemplateError Segment :=
  if head.isCall registry piped arguments then
    .ok (.call (Text.lower head.name) (arguments.map Token.toArgument))
  else if arguments.isEmpty then .ok head.toSegment
  else .error (.unknownFilter head.spelling)

/-- The segments of token lists, the first of which has a value piped in if `piped`. -/
def segmentsOfTokens (registry : Registry) :
    Bool → List (List Token) → Except TemplateError (List Segment)
  | _, [] => .ok []
  | piped, [] :: rest => segmentsOfTokens registry piped rest
  | piped, (head :: arguments) :: rest => do
    let segment ← Segment.ofTokens registry piped head arguments
    let others ← segmentsOfTokens registry true rest
    return segment :: others

/-- Reads the content of a tag, without its braces. -/
def Expression.parse (registry : Registry) (raw : String) : Except TemplateError Expression := do
  match tokenize? raw.toList with
  | none => throw (.unterminatedLiteral raw)
  | some tokens => return ⟨← segmentsOfTokens registry false tokens⟩

end FormLetter.Tag
