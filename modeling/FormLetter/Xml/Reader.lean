import FormLetter.Xml.Event

/-!
# Reading XML

`Builder` makes a document of events. It keeps the open elements on a stack; each closed one
becomes a child of the one around it, or the root. `Document.parse` is the document of the events
of a text.
-/

namespace FormLetter.Xml

/-- An element that is not closed yet. -/
structure OpenElement where
  name : String
  attributes : List (String × String)
  children : List Node

def OpenElement.toNode (o : OpenElement) : Node := .element o.name o.attributes o.children

/-- What has been read. The open elements come innermost first. -/
structure Builder where
  declaration : Option Declaration
  opened : List OpenElement
  root : Option Node

namespace Builder

def initial : Builder := ⟨none, [], none⟩

/-- Adds a node to the innermost open element, or makes it the root. -/
def attach (b : Builder) (n : Node) : Except XmlError Builder :=
  match b.opened with
  | top :: rest => .ok { b with opened := { top with children := top.children ++ [n] } :: rest }
  | [] =>
    match b.root with
    | none => .ok { b with root := some n }
    | some _ => .error .multipleRoots

def step (b : Builder) : Event → Except XmlError Builder
  | .declaration d => .ok { b with declaration := some d }
  | .start name attributes => .ok { b with opened := ⟨name, attributes, []⟩ :: b.opened }
  | .empty name attributes => b.attach (.element name attributes [])
  | .finish =>
    match b.opened with
    | [] => .error .unexpectedClosing
    | top :: rest => { b with opened := rest }.attach top.toNode
  | .text written =>
    if b.opened.isEmpty then .ok b
    else
      match unescape? written.toList with
      | some text => b.attach (.text (String.ofList text))
      | none => .error .malformedReference
  | .data content => if b.opened.isEmpty then .ok b else b.attach (.text content)
  | .aside => .ok b

/-- The document, if it is complete. -/
def finish (b : Builder) : Except XmlError Document :=
  match b.opened, b.root with
  | _ :: _, _ => .error .unclosedElement
  | [], none => .error .noRoot
  | [], some root => .ok ⟨b.declaration, root⟩

end Builder

/-- The document of a sequence of events. -/
def Document.ofEvents (events : List Event) : Except XmlError Document := do
  (← events.foldlM Builder.step .initial).finish

/-- The document that a text is. The error is the first that is met. -/
def Document.parse (text : String) : Except XmlError Document := do
  let (events, error) := Event.ofText text
  let b ← events.foldlM Builder.step .initial
  match error with
  | some e => throw e
  | none => b.finish

end FormLetter.Xml
