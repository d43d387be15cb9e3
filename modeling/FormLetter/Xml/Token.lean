import FormLetter.Xml.Attribute

/-!
# Tokens of XML

A text is cut into tags, character data, and the text between them. Comments, processing
instructions and document types are asides. A `>` in a quoted value does not end a tag.
-/

namespace FormLetter.Xml

open FormLetter.Text

/-- A token holds what is written, without the delimiters. The content of a tag comes after its
name. -/
inductive Token where
  | text (written : List Char)
  | data (written : List Char)
  | aside
  | declaration (content : List Char)
  | opening (name content : List Char)
  | empty (name content : List Char)
  | closing (name : List Char)
  deriving DecidableEq, Repr

/-- The text before the first occurrence of `stop`, and what follows it. -/
def before? (stop : List Char) : List Char → Option (List Char × List Char)
  | [] => none
  | c :: cs =>
    match stop.isPrefixOf (c :: cs) with
    | true => some ([], (c :: cs).drop stop.length)
    | false => (before? stop cs).map fun (text, rest) => (c :: text, rest)

theorem before?_le {stop cs text rest : List Char} (h : before? stop cs = some (text, rest)) :
    rest.length ≤ cs.length := by
  induction cs generalizing text with
  | nil => cases h
  | cons c cs ih =>
    rw [before?] at h
    split at h
    · cases h
      simp only [List.length_drop]
      omega
    · obtain ⟨⟨t, r⟩, hr, he⟩ := Option.map_eq_some_iff.1 h
      cases he
      have := ih hr
      simp only [List.length_cons]
      omega

def upToClose (cs : List Char) : List Char × List Char :=
  (cs.takeWhile (· != '>'), (cs.dropWhile (· != '>')).drop 1)

theorem upToClose_le (cs : List Char) : (upToClose cs).2.length ≤ cs.length := by
  have := run_rest_le (· != '>') cs
  simp only [run] at this
  simp only [upToClose, List.length_drop]
  omega

/-- The quote that is open after a character, given the one before. -/
def quoteAfter (c : Char) : Option Char → Option Char
  | none => if c = '"' ∨ c = '\'' then some c else none
  | some q => if c = q then none else some q

/-- The content of a tag and what follows its `>`, which does not stand in quotes. -/
def tagContent? (quoted : Option Char) : List Char → Option (List Char × List Char)
  | [] => none
  | c :: cs =>
    if c = '>' ∧ quoted = none then some ([], cs)
    else
      (tagContent? (quoteAfter c quoted) cs).map fun (content, rest) => (c :: content, rest)

theorem tagContent?_le {quoted : Option Char} {cs content rest : List Char}
    (h : tagContent? quoted cs = some (content, rest)) : rest.length ≤ cs.length := by
  induction cs generalizing quoted content with
  | nil => cases h
  | cons c cs ih =>
    rw [tagContent?] at h
    split at h
    · cases h
      simp
    · obtain ⟨⟨t, r⟩, hr, he⟩ := Option.map_eq_some_iff.1 h
      cases he
      have := ih hr
      simp only [List.length_cons]
      omega

/-- The content of a document type and what follows its `>`. `depth` pairs of angle brackets are
open in it. -/
def doctypeContent? (depth : Nat) : List Char → Option (List Char × List Char)
  | [] => none
  | c :: cs =>
    if c = '>' ∧ depth = 0 then some ([], cs)
    else
      let depth := if c = '<' then depth + 1 else if c = '>' then depth - 1 else depth
      (doctypeContent? depth cs).map fun (content, rest) => (c :: content, rest)

theorem doctypeContent?_le {depth : Nat} {cs content rest : List Char}
    (h : doctypeContent? depth cs = some (content, rest)) : rest.length ≤ cs.length := by
  induction cs generalizing depth content with
  | nil => cases h
  | cons c cs ih =>
    rw [doctypeContent?] at h
    split at h
    · cases h
      simp
    · obtain ⟨⟨t, r⟩, hr, he⟩ := Option.map_eq_some_iff.1 h
      cases he
      have := ih hr
      simp only [List.length_cons]
      omega

/-! ## Markup -/

/-- What follows a keyword, which may be in any case. -/
def afterWord? : List Char → List Char → Option (List Char)
  | [], cs => some cs
  | _ :: _, [] => none
  | k :: ks, c :: cs => if c.toUpper = k then afterWord? ks cs else none

theorem afterWord?_le {ks cs rest : List Char} (h : afterWord? ks cs = some rest) :
    rest.length ≤ cs.length := by
  induction ks generalizing cs with
  | nil => cases h; exact Nat.le_refl _
  | cons k ks ih =>
    cases cs with
    | nil => cases h
    | cons c cs =>
      rw [afterWord?] at h
      split at h
      · have := ih h
        simp only [List.length_cons]
        omega
      · cases h

def readComment : List Char → Except XmlError (Token × List Char)
  | '-' :: '-' :: cs =>
    match before? "-->".toList cs with
    | some (_, rest) => .ok (.aside, rest)
    | none => .error (.unterminated "Comment")
  | _ => .error (.unterminated "Comment")

theorem readComment_le {cs rest : List Char} {t : Token} (h : readComment cs = .ok (t, rest)) :
    rest.length ≤ cs.length := by
  unfold readComment at h
  split at h
  · split at h
    · rename_i hb
      cases h
      have := before?_le hb
      simp only [List.length_cons]
      omega
    · cases h
  · cases h

def readData (cs : List Char) : Except XmlError (Token × List Char) :=
  match (afterWord? "[CDATA[".toList cs).bind (before? "]]>".toList) with
  | some (written, rest) => .ok (.data written, rest)
  | none => .error (.unterminated "CData")

theorem readData_le {cs rest : List Char} {t : Token} (h : readData cs = .ok (t, rest)) :
    rest.length ≤ cs.length := by
  unfold readData at h
  split at h
  · rename_i hb
    cases h
    obtain ⟨ds, hd, hb⟩ := Option.bind_eq_some_iff.1 hb
    exact Nat.le_trans (before?_le hb) (afterWord?_le hd)
  · cases h

def readDoctype (cs : List Char) : Except XmlError (Token × List Char) :=
  match (afterWord? "DOCTYPE".toList cs).bind (doctypeContent? 0) with
  | some (content, rest) =>
    if content.all isSpace then .error .emptyDoctype else .ok (.aside, rest)
  | none => .error (.unterminated "DOCTYPE")

theorem readDoctype_le {cs rest : List Char} {t : Token} (h : readDoctype cs = .ok (t, rest)) :
    rest.length ≤ cs.length := by
  unfold readDoctype at h
  split at h
  · rename_i hb
    split at h
    · cases h
    · cases h
      obtain ⟨ds, hd, hb⟩ := Option.bind_eq_some_iff.1 hb
      exact Nat.le_trans (doctypeContent?_le hb) (afterWord?_le hd)
  · cases h

/-- Markup after `<!`. -/
def readBang : List Char → Except XmlError (Token × List Char)
  | [] => .error (.unterminated "Bang")
  | c :: cs =>
    if c = '-' then readComment (c :: cs)
    else if c = '[' then readData (c :: cs)
    else if c.toUpper = 'D' then readDoctype (c :: cs)
    else .error (.unknownMarkup c)

theorem readBang_le {cs rest : List Char} {t : Token} (h : readBang cs = .ok (t, rest)) :
    rest.length ≤ cs.length := by
  unfold readBang at h
  split at h
  · cases h
  · split at h
    · exact readComment_le h
    · split at h
      · exact readData_le h
      · split at h
        · exact readDoctype_le h
        · cases h

/-- The token of what stands between `<?` and `?>`. -/
def Token.ofInstruction : List Char → Token
  | 'x' :: 'm' :: 'l' :: c :: cs => if isSpace c then .declaration (c :: cs) else .aside
  | _ => .aside

/-- A processing instruction or the declaration, after `<?`. -/
def readInstruction (cs : List Char) : Except XmlError (Token × List Char) :=
  let (content, rest) := upToClose cs
  if 2 ≤ content.length ∧ content.getLast? = some '?' then
    .ok (.ofInstruction content.dropLast, rest)
  else .error (.unterminated "XmlDecl")

theorem readInstruction_le {cs rest : List Char} {t : Token}
    (h : readInstruction cs = .ok (t, rest)) : rest.length ≤ cs.length := by
  have := upToClose_le cs
  unfold readInstruction at h
  dsimp only at h
  split at h
  · cases h
    exact this
  · cases h

/-- The name of an end tag, without white space after it, unless that is all there is. -/
def closingName (content : List Char) : List Char :=
  match (content.reverse.dropWhile isSpace).reverse with
  | [] => content
  | name => name

/-- The token of a tag with this content. -/
def Token.ofTag (content : List Char) : Token :=
  if content.getLast? = some '/' then
    let (name, attributes) := run (!isSpace ·) content
    match attributes with
    | [] => .empty name.dropLast []
    | _ => .empty name attributes.dropLast
  else
    let (name, attributes) := run (!isSpace ·) content
    .opening name attributes

/-- Markup after `<`. -/
def readMarkup : List Char → Except XmlError (Token × List Char)
  | '!' :: cs => readBang cs
  | '/' :: cs =>
    let (content, rest) := upToClose cs
    .ok (.closing (closingName content), rest)
  | '?' :: cs => readInstruction cs
  | cs =>
    match tagContent? none cs with
    | some (content, rest) => .ok (.ofTag content, rest)
    | none => .error (.unterminated "Element")

/-- The token at the front of a text. There is none in the empty text, or after a `<` at the
end. -/
def Token.read : List Char → Except XmlError (Option (Token × List Char))
  | [] => .ok none
  | c :: cs =>
    if c = '<' then
      if cs.isEmpty then .ok none else (readMarkup cs).map some
    else
      let (written, rest) := run (· != '<') cs
      .ok (some (.text (c :: written), rest))

theorem readMarkup_le {cs rest : List Char} {t : Token} (h : readMarkup cs = .ok (t, rest)) :
    rest.length ≤ cs.length := by
  unfold readMarkup at h
  split at h
  · exact Nat.le_succ_of_le (readBang_le h)
  · cases h
    exact Nat.le_succ_of_le (upToClose_le _)
  · exact Nat.le_succ_of_le (readInstruction_le h)
  · split at h
    · rename_i hb
      cases h
      exact tagContent?_le hb
    · cases h

theorem Token.read_shorter {cs rest : List Char} {t : Token}
    (h : Token.read cs = .ok (some (t, rest))) : rest.length < cs.length := by
  unfold Token.read at h
  split at h
  · cases h
  · rename_i c cs
    split at h
    · split at h
      · cases h
      · cases hm : readMarkup cs with
        | error e => rw [hm] at h; cases h
        | ok p =>
          obtain ⟨t', r⟩ := p
          rw [hm] at h
          cases h
          exact Nat.lt_succ_of_le (readMarkup_le hm)
    · cases h
      exact Nat.lt_succ_of_le (run_rest_le (· != '<') cs)

end FormLetter.Xml
