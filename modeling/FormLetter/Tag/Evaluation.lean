import FormLetter.Tag.Expression

/-!
# Evaluation of tags

`Expression.eval` runs a pipeline in a context. `tagPattern` finds the tags of a text: an
opening brace, content that does not start with a slash, and the next closing brace. `render`
replaces each by the text of its value, from left to right, and does not look at what it put
there.
-/

namespace FormLetter.Tag

open FormLetter.Json FormLetter.Text

def Argument.eval (ctx : Context) : Argument → Value
  | .variable path => ctx.resolve path
  | .literal text => .text text

/-- The value of a segment after the value piped into it. -/
def Segment.eval (registry : Registry) (ctx : Context) (input : Option Value) :
    Segment → Except TemplateError Value
  | .variable path => .ok (ctx.resolve path)
  | .literal text => .ok (.text text)
  | .call name arguments =>
    match registry.get? name with
    | none => .error (.unknownFilter name)
    | some filter =>
      match filter.apply ctx (arguments.map (Argument.eval ctx)) input with
      | .ok text => .ok (.text text)
      | .error cause => .error (.filter name cause)

/-- The value of the last segment; an expression without segments has none. -/
def Expression.eval (registry : Registry) (ctx : Context) (e : Expression) :
    Except TemplateError (Option Value) :=
  e.segments.foldlM (fun input s => do return some (← s.eval registry ctx input)) none

/-- What stands in a document in place of a tag. -/
def evalTag (registry : Registry) (ctx : Context) (raw : String) :
    Except TemplateError String := do
  let e ← Expression.parse registry raw
  let v ← e.eval registry ctx
  return (v.map Value.plain).getD ""

def isTagChar (c : Char) : Bool := c != '\x7d'

/-- A tag at the front of a text: its content, without the braces. -/
def readTag : List Char → Option (List Char × List Char)
  | '\x7b' :: c :: cs =>
    if c = '/' ∨ c = '\x7d' then none
    else (enclosed? isTagChar '\x7d' cs).map fun (inside, rest) => (c :: inside, rest)
  | _ => none

/-- The tags of a text, by their content. -/
def tagPattern : Pattern (List Char) where
  read := readTag
  shorter {cs a rest} h := by
    unfold readTag at h
    split at h
    · split at h
      · cases h
      · obtain ⟨⟨inside, r⟩, hr, he⟩ := Option.map_eq_some_iff.1 h
        cases he
        have := enclosed?_shorter hr
        simp only [List.length_cons]
        omega
    · cases h

/-- The text with each tag replaced by its value. -/
def render (registry : Registry) (ctx : Context) (text : String) :
    Except TemplateError String := do
  let (pieces, last) := tagPattern.split text.toList
  let rendered ← pieces.mapM fun (before, content) => do
    return String.ofList before ++ (← evalTag registry ctx (String.ofList content))
  return String.join rendered ++ String.ofList last

end FormLetter.Tag
