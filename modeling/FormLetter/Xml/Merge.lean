import FormLetter.Text.Braces

/-!
# Tags split by markup

A tag may be typed as one word and yet be stored with markup in it. `mergeTags` takes the markup
out of whatever stands between two braces with no brace between them.
-/

namespace FormLetter.Xml

open FormLetter.Text

/-- Markup at the front of a text: what is between the angle brackets. -/
def readAngles : List Char → Option (List Char × List Char)
  | '<' :: cs => enclosed? (· != '>') '>' cs
  | _ => none

def markupPattern : Pattern (List Char) where
  read := readAngles
  shorter {cs a rest} h := by
    unfold readAngles at h
    split at h
    · have := enclosed?_shorter h
      simp only [List.length_cons]
      omega
    · cases h

def withoutMarkup (cs : List Char) : List Char := markupPattern.replace (fun _ => []) cs

/-- The text with the markup inside of tags taken out. -/
def mergeTags (text : String) : String :=
  String.ofList (bracePattern.replace (fun inside => braced (withoutMarkup inside)) text.toList)

end FormLetter.Xml
