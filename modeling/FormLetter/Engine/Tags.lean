import FormLetter.Engine.Basic
import FormLetter.Text.Braces

/-!
# The tags of a template

`Engine.tags` lists what stands between braces in a template, without evaluating it: loop starts,
loop ends and expressions, these with the error that keeps one from being read. Empty braces and
other content that starts with a slash are no tags.
-/

namespace FormLetter

open FormLetter.Loop FormLetter.Text

inductive TagKind where
  | loopStart (collection binding : String)
  | loopEnd
  | expression
  deriving DecidableEq, Repr

/-- A tag as it is written, with its braces. -/
structure TagReport where
  tag : String
  kind : TagKind
  error : Option TemplateError
  deriving DecidableEq, Repr

/-- What a pair of braces with this content is. -/
def TagReport.ofContent? (filters : Registry) (content : List Char) : Option TagReport :=
  let tag := String.ofList (braced content)
  if let some header := startIn? tag then
    some ⟨tag, .loopStart header.collection header.binding, none⟩
  else if hasEnd tag then some ⟨tag, .loopEnd, none⟩
  else
    (Tag.tagPattern.first? tag.toList).map fun o =>
      let error := match Tag.Expression.parse filters (String.ofList o.value) with
        | .ok _ => none
        | .error e => some e
      ⟨tag, .expression, error⟩

/-- The tags of a template in document order. -/
def Engine.tags (engine : Engine) (template : Node) : List TagReport :=
  (template.texts engine.layout.textContainer).flatMap fun (_, s) =>
    (bracePattern.all s.toList).filterMap (TagReport.ofContent? engine.filters)

end FormLetter
