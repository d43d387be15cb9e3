import FormLetter.Xml.Token

/-!
# Events of XML

The events of a text are its tokens with names and attributes read. An end tag has to have the
name of the innermost open element. Text is left as it is written, for outside of the root it
does not count.
-/

namespace FormLetter.Xml

inductive Event where
  | declaration (d : Declaration)
  | start (name : String) (attributes : List (String × String))
  | empty (name : String) (attributes : List (String × String))
  | finish
  | text (written : String)
  | data (content : String)
  | aside
  deriving DecidableEq, Repr

/-- The event of a token and the open elements after it, given those before, innermost first. -/
def Event.ofToken (opened : List (List Char)) :
    Token → Except XmlError (Event × List (List Char))
  | .text written => .ok (.text (String.ofList written), opened)
  | .data written => .ok (.data (String.ofList written), opened)
  | .aside => .ok (.aside, opened)
  | .declaration content => do return (.declaration (← Declaration.read content), opened)
  | .opening name content => do
    return (.start (String.ofList name) (← elementAttributes content), name :: opened)
  | .empty name content => do
    return (.empty (String.ofList name) (← elementAttributes content), opened)
  | .closing name =>
    match opened with
    | [] => .error (.mismatchedEnd "" (String.ofList name))
    | expected :: opened =>
      if name = expected then .ok (.finish, opened)
      else .error (.mismatchedEnd (String.ofList expected) (String.ofList name))

/-- The events of a text, up to its end or to an error. -/
def Event.all (opened : List (List Char)) (cs : List Char) : List Event × Option XmlError :=
  match _ : Token.read cs with
  | .error e => ([], some e)
  | .ok none => ([], none)
  | .ok (some (t, rest)) =>
    match Event.ofToken opened t with
    | .error e => ([], some e)
    | .ok (event, opened) =>
      let (events, e) := Event.all opened rest
      (event :: events, e)
termination_by cs.length
decreasing_by exact Token.read_shorter ‹_›

/-- A byte order mark at the front is no part of the text. -/
def withoutMark : List Char → List Char
  | '\ufeff' :: cs => cs
  | cs => cs

def Event.ofText (text : String) : List Event × Option XmlError :=
  Event.all [] (withoutMark text.toList)

end FormLetter.Xml
