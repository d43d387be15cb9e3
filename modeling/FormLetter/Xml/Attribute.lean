import FormLetter.Text.Pattern
import FormLetter.Xml.Basic
import FormLetter.Xml.Escape

/-!
# Attributes

In a tag, attributes are names with quoted values. White space may stand around the equals sign
and between attributes, where it may also be missing. The attributes of an element have different
names, and their values may hold references.
-/

namespace FormLetter.Xml

open FormLetter.Text

def isSpace (c : Char) : Bool := c == ' ' || c == '\r' || c == '\n' || c == '\t'

def skipSpaces (cs : List Char) : List Char := cs.dropWhile isSpace

theorem skipSpaces_le (cs : List Char) : (skipSpaces cs).length ≤ cs.length :=
  run_rest_le isSpace cs

def isNameChar (c : Char) : Bool := c != '=' && !isSpace c

/-- A name and its value, as they are written. -/
structure Attribute where
  name : List Char
  value : List Char
  deriving DecidableEq, Repr

/-- A quoted value at the front of a text. -/
def quotedValue? : List Char → Option (List Char × List Char)
  | '"' :: cs => enclosed? (· != '"') '"' cs
  | '\'' :: cs => enclosed? (· != '\'') '\'' cs
  | _ => none

theorem quotedValue?_shorter {cs value rest : List Char}
    (h : quotedValue? cs = some (value, rest)) : rest.length < cs.length := by
  unfold quotedValue? at h
  split at h
  · have := enclosed?_shorter h
    simp only [List.length_cons]
    omega
  · have := enclosed?_shorter h
    simp only [List.length_cons]
    omega
  · cases h

/-- What follows an equals sign, and the space around it. -/
def afterEquals? (cs : List Char) : Option (List Char) :=
  match skipSpaces cs with
  | '=' :: cs => some (skipSpaces cs)
  | _ => none

theorem afterEquals?_le {cs rest : List Char} (h : afterEquals? cs = some rest) :
    rest.length ≤ cs.length := by
  unfold afterEquals? at h
  have hle := skipSpaces_le cs
  split at h
  · rename_i cs' heq
    rw [heq] at hle
    have := skipSpaces_le cs'
    cases h
    simp only [List.length_cons] at hle
    omega
  · cases h

/-- The attribute at the front of a text that starts with a character of its name. -/
def readAttribute? (first : Char) (cs : List Char) : Option (Attribute × List Char) := do
  let (more, cs) := run isNameChar cs
  let cs ← afterEquals? cs
  let (value, cs) ← quotedValue? cs
  return (⟨first :: more, value⟩, cs)

theorem readAttribute?_shorter {first : Char} {cs rest : List Char} {a : Attribute}
    (h : readAttribute? first cs = some (a, rest)) : rest.length < cs.length := by
  simp only [readAttribute?, Option.bind_eq_bind, Option.pure_def, Option.bind_eq_some_iff,
    Prod.exists, Option.some.injEq, Prod.mk.injEq] at h
  obtain ⟨cs1, h1, value, cs2, h2, _, rfl⟩ := h
  have := run_rest_le isNameChar cs
  have := afterEquals?_le h1
  have := quotedValue?_shorter h2
  omega

/-- The attributes of a tag up to the first that cannot be read, and whether there is one. -/
def attributesOf (cs : List Char) : List Attribute × Bool :=
  match _ : skipSpaces cs with
  | [] => ([], true)
  | c :: cs' =>
    match _ : readAttribute? c cs' with
    | none => ([], false)
    | some (a, rest) =>
      let (others, complete) := attributesOf rest
      (a :: others, complete)
termination_by cs.length
decreasing_by
  have h1 := skipSpaces_le cs
  have h2 := readAttribute?_shorter ‹_›
  have heq : skipSpaces cs = c :: cs' := ‹_›
  rw [heq] at h1
  simp only [List.length_cons] at h1
  omega

/-- The attributes of an element. -/
def elementAttributes (cs : List Char) : Except XmlError (List (String × String)) :=
  match attributesOf cs with
  | (_, false) => .error .malformedAttribute
  | (attributes, true) =>
    if (attributes.map (·.name)).Nodup then
      attributes.mapM fun a =>
        match unescape? a.value with
        | some value => .ok (String.ofList a.name, String.ofList value)
        | none => .error .malformedReference
    else .error .malformedAttribute

/-- The value of the first attribute of a name, as it is written. Attributes that come later are
not looked at. -/
def declared? (name : String) : List Attribute × Bool → Except XmlError (Option String)
  | (attributes, complete) =>
    match attributes.find? (·.name == name.toList) with
    | some a => .ok (some (String.ofList a.value))
    | none => if complete then .ok none else .error .malformedAttribute

/-- What a declaration says. It says the version first. -/
def Declaration.read (cs : List Char) : Except XmlError Declaration := do
  let attributes := attributesOf cs
  match attributes with
  | ([], true) => throw .declarationWithoutVersion
  | ([], false) => throw .malformedAttribute
  | (first :: _, _) =>
    if first.name ≠ "version".toList then throw .declarationWithoutVersion
    return {
      version := String.ofList first.value
      encoding := ← declared? "encoding" attributes
      standalone := ← declared? "standalone" attributes }

end FormLetter.Xml
