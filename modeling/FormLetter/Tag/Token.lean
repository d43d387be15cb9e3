import FormLetter.Text.Blank
import FormLetter.Text.Pattern

/-!
# Tokens of a tag

The content of a tag is cut at vertical bars into segments, and these into tokens: literals
between asterisks, in which `\*` is an asterisk, and words, which run to white space or a bar. A
word with a dollar sign in front is a variable. Segments without tokens do not count.
-/

namespace FormLetter.Tag

open FormLetter.Text

inductive Token where
  | variable (path : String)
  | literal (text : String)
  | word (text : String)
  deriving DecidableEq, Repr

/-- A token, or the bar between two segments. -/
inductive Lexeme where
  | bar
  | token (t : Token)
  deriving DecidableEq, Repr

/-- A literal after its opening asterisk, and what follows the closing one; none if it does not
close. -/
def readLiteral : List Char → Option (List Char × List Char)
  | [] => none
  | '\\' :: '*' :: cs => (readLiteral cs).map fun (text, rest) => ('*' :: text, rest)
  | c :: cs =>
    if c = '*' then some ([], cs)
    else (readLiteral cs).map fun (text, rest) => (c :: text, rest)

theorem readLiteral_shorter {cs text rest : List Char} (h : readLiteral cs = some (text, rest)) :
    rest.length < cs.length := by
  fun_induction readLiteral cs generalizing text rest with
  | case1 => cases h
  | case2 cs ih =>
    obtain ⟨⟨t, r⟩, hr, he⟩ := Option.map_eq_some_iff.1 h
    cases he
    have := ih hr
    simp only [List.length_cons]
    omega
  | case3 => cases h; simp
  | case4 c cs _ _ ih =>
    obtain ⟨⟨t, r⟩, hr, he⟩ := Option.map_eq_some_iff.1 h
    cases he
    have := ih hr
    simp only [List.length_cons]
    omega

def isWordChar (c : Char) : Bool := !isBlank c && c != '|'

def Token.ofWord : List Char → Token
  | '$' :: path => .variable (String.ofList path)
  | cs => .word (String.ofList cs)

/-- The lexemes of a tag; none if a literal does not close. -/
def lexemes? : List Char → Option (List Lexeme)
  | [] => some []
  | c :: cs =>
    if c = '|' then (lexemes? cs).map (.bar :: ·)
    else if c = '*' then
      match _ : readLiteral cs with
      | some (text, rest) => (lexemes? rest).map (.token (.literal (String.ofList text)) :: ·)
      | none => none
    else if isBlank c then lexemes? cs
    else
      (lexemes? (cs.dropWhile isWordChar)).map
        (.token (.ofWord (c :: cs.takeWhile isWordChar)) :: ·)
termination_by cs => cs.length
decreasing_by
  · simp
  · have := readLiteral_shorter ‹_›
    simp only [List.length_cons]
    omega
  · simp
  · have := run_rest_le isWordChar cs
    simp only [run] at this
    exact Nat.lt_succ_of_le this

/-- The tokens between bars. -/
def segmentsOf : List Lexeme → List (List Token)
  | [] => [[]]
  | .bar :: rest => [] :: segmentsOf rest
  | .token t :: rest =>
    match segmentsOf rest with
    | [] => [[t]]
    | segment :: segments => (t :: segment) :: segments

def tokenize? (raw : List Char) : Option (List (List Token)) :=
  (lexemes? raw).map fun ls => (segmentsOf ls).filter (!·.isEmpty)

end FormLetter.Tag
