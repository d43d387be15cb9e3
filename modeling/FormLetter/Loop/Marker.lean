import FormLetter.Text.Blank
import FormLetter.Text.Pattern

/-!
# Loop markers

A loop starts at a marker that names a collection and what its items are called,
`{foreach lines as line}`, and ends at `{/foreach}`. The keywords may be in any case, white space
may stand inside the braces, and it has to stand around `as`. A name is a run of characters other
than white space and the closing brace.
-/

namespace FormLetter.Loop

open FormLetter.Text

/-- A loop start: its marker as it is written, the path of the collection, and the name given to
the items. -/
structure Header where
  collection : String
  binding : String
  marker : String
  deriving DecidableEq, Repr

/-- The long s, which is an `s` but for its case. -/
def longS : Char := 'ſ'

def isCaseOf (letter c : Char) : Bool := c.toLower == letter || (letter == 's' && c == longS)

/-- What follows a keyword. -/
def afterKeyword : List Char → List Char → Option (List Char)
  | [], cs => some cs
  | _ :: _, [] => none
  | k :: ks, c :: cs => if isCaseOf k c then afterKeyword ks cs else none

theorem afterKeyword_le {ks cs rest : List Char} (h : afterKeyword ks cs = some rest) :
    rest.length ≤ cs.length := by
  induction ks generalizing cs with
  | nil => simp only [afterKeyword, Option.some.injEq] at h; simp [h]
  | cons k ks ih =>
    cases cs with
    | nil => simp [afterKeyword] at h
    | cons c cs =>
      rw [afterKeyword] at h
      split at h
      · have := ih h
        simp only [List.length_cons]
        omega
      · cases h

/-- At least one character in `p`: the longest run, and the rest. -/
def run1 (p : Char → Bool) (cs : List Char) : Option (List Char × List Char) :=
  match run p cs with
  | ([], _) => none
  | r => some r

theorem run1_le {p : Char → Bool} {cs taken rest : List Char}
    (h : run1 p cs = some (taken, rest)) : rest.length ≤ cs.length := by
  have hle := run_rest_le p cs
  unfold run1 at h
  split at h
  · cases h
  · simp only [Option.some.injEq] at h
    rw [h] at hle
    exact hle

def isNameChar (c : Char) : Bool := !isBlank c && c != '\x7d'

def skipBlanks (cs : List Char) : List Char := (run isBlank cs).2

def afterBrace : List Char → Option (List Char)
  | '\x7d' :: cs => some cs
  | _ => none

theorem afterBrace_le {cs rest : List Char} (h : afterBrace cs = some rest) :
    rest.length ≤ cs.length := by
  unfold afterBrace at h
  split at h
  · cases h; simp
  · cases h

def afterSlash : List Char → Option (List Char)
  | '/' :: cs => some cs
  | _ => none

theorem afterSlash_le {cs rest : List Char} (h : afterSlash cs = some rest) :
    rest.length ≤ cs.length := by
  unfold afterSlash at h
  split at h
  · cases h; simp
  · cases h

/-! ## Markers -/

/-- A loop start after its opening brace: collection, binding, and what follows the marker. -/
def readStartInside (cs : List Char) : Option ((List Char × List Char) × List Char) := do
  let cs ← afterKeyword "foreach".toList (skipBlanks cs)
  let (_, cs) ← run1 isBlank cs
  let (collection, cs) ← run1 isNameChar cs
  let (_, cs) ← run1 isBlank cs
  let cs ← afterKeyword "as".toList cs
  let (_, cs) ← run1 isBlank cs
  let (binding, cs) ← run1 isNameChar cs
  let cs ← afterBrace (skipBlanks cs)
  some ((collection, binding), cs)

theorem readStartInside_le {cs rest : List Char} {names : List Char × List Char}
    (h : readStartInside cs = some (names, rest)) : rest.length ≤ cs.length := by
  simp only [readStartInside, Option.bind_eq_bind, Option.bind_eq_some_iff, Prod.exists,
    Option.some.injEq, Prod.mk.injEq] at h
  obtain ⟨c1, h1, _, c2, h2, _, c3, h3, _, c4, h4, c5, h5, _, c6, h6, _, c7, h7, c8, h8, _, rfl⟩ :=
    h
  have := run_rest_le isBlank cs
  have := afterKeyword_le h1
  have := run1_le h2
  have := run1_le h3
  have := run1_le h4
  have := afterKeyword_le h5
  have := run1_le h6
  have := run1_le h7
  have := run_rest_le isBlank c7
  have := afterBrace_le h8
  simp only [skipBlanks] at *
  omega

/-- A loop end after its opening brace: what follows the marker. -/
def readEndInside (cs : List Char) : Option (List Char) := do
  let cs ← afterSlash (skipBlanks cs)
  let cs ← afterKeyword "foreach".toList cs
  afterBrace (skipBlanks cs)

theorem readEndInside_le {cs rest : List Char} (h : readEndInside cs = some rest) :
    rest.length ≤ cs.length := by
  simp only [readEndInside, Option.bind_eq_bind, Option.bind_eq_some_iff] at h
  obtain ⟨c1, h1, c2, h2, h3⟩ := h
  have := run_rest_le isBlank cs
  have := afterSlash_le h1
  have := afterKeyword_le h2
  have := run_rest_le isBlank c2
  have := afterBrace_le h3
  simp only [skipBlanks] at *
  omega

def upTo (cs rest : List Char) : List Char := cs.take (cs.length - rest.length)

/-- A loop start at the front of a text. -/
def readStart : List Char → Option (Header × List Char)
  | '\x7b' :: cs =>
    (readStartInside cs).map fun ((collection, binding), rest) =>
      (⟨String.ofList collection, String.ofList binding,
        String.ofList ('\x7b' :: upTo cs rest)⟩, rest)
  | _ => none

/-- A loop end at the front of a text: the marker. -/
def readEnd : List Char → Option (List Char × List Char)
  | '\x7b' :: cs => (readEndInside cs).map fun rest => ('\x7b' :: upTo cs rest, rest)
  | _ => none

def startPattern : Pattern Header where
  read := readStart
  shorter {cs a rest} h := by
    unfold readStart at h
    split at h
    · obtain ⟨⟨names, r⟩, hr, he⟩ := Option.map_eq_some_iff.1 h
      cases he
      have := readStartInside_le hr
      simp only [List.length_cons]
      omega
    · cases h

def endPattern : Pattern (List Char) where
  read := readEnd
  shorter {cs a rest} h := by
    unfold readEnd at h
    split at h
    · obtain ⟨r, hr, he⟩ := Option.map_eq_some_iff.1 h
      cases he
      have := readEndInside_le hr
      simp only [List.length_cons]
      omega
    · cases h

/-- The first loop start of a text. -/
def startIn? (text : String) : Option Header :=
  (startPattern.first? text.toList).map (·.value)

def hasStart (text : String) : Bool := startPattern.occursIn text.toList

def hasEnd (text : String) : Bool := endPattern.occursIn text.toList

end FormLetter.Loop
