import FormLetter.Text.Pattern

/-!
# Pairs of braces

Braces with no brace between them, in a text.
-/

namespace FormLetter.Text

def isBraceless (c : Char) : Bool := c != '\x7b' && c != '\x7d'

/-- A pair of braces with no brace between them at the front of a text: what is between. -/
def readBraces : List Char → Option (List Char × List Char)
  | '\x7b' :: cs => enclosed? isBraceless '\x7d' cs
  | _ => none

theorem readBraces_shorter {cs inside rest : List Char}
    (h : readBraces cs = some (inside, rest)) : rest.length < cs.length := by
  unfold readBraces at h
  split at h
  · have := enclosed?_shorter h
    simp only [List.length_cons]
    omega
  · cases h

def bracePattern : Pattern (List Char) where
  read := readBraces
  shorter := readBraces_shorter

def braced (cs : List Char) : List Char := '\x7b' :: (cs ++ ['\x7d'])

end FormLetter.Text
