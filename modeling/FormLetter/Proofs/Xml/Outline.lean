import FormLetter.Proofs.Xml.Building
import FormLetter.Proofs.Xml.RoundTrip

/-!
# Outlines

Whether a text is a document, and what text is in it, is a matter of little: the names of the open
elements, whether there is a root, and the text so far. An `Outline` keeps these, and changes with
each token as the reader does (`Outline.of_stepToken`). So a text is a document with some text in it
exactly if its outlines run to that text (`exists_parse_iff`).
-/

namespace FormLetter.Xml

open FormLetter.Text

/-- What matters of what has been read: the names of the open elements, innermost first, whether
there is a root, and the text in elements. -/
structure Outline where
  opened : List (List Char)
  rooted : Bool
  text : List Char

namespace Outline

def initial : Outline := ⟨[], false, []⟩

def complete (text : List Char) : Outline := ⟨[], true, text⟩

/-- The outline after a text. Outside of elements it does not count. -/
def say (o : Outline) (written : List Char) : Option Outline :=
  if o.opened = [] then some o
  else (unescape? written).map fun s => { o with text := o.text ++ s }

def complete? (o : Outline) : Option Outline :=
  if o.opened = [] then if o.rooted then none else some { o with rooted := true } else some o

/-- The outline after a token; none if it cannot stand there. -/
def next? (o : Outline) : Token → Option Outline
  | .text written => o.say written
  | .data written => some (if o.opened = [] then o else { o with text := o.text ++ written })
  | .aside => some o
  | .declaration content => (Declaration.read content).toOption.map fun _ => o
  | .opening name content =>
    (elementAttributes content).toOption.map fun _ => { o with opened := name :: o.opened }
  | .empty _ content => (elementAttributes content).toOption.bind fun _ => o.complete?
  | .closing name =>
    match o.opened with
    | [] => none
    | expected :: opened => if name = expected then { o with opened := opened }.complete? else none

end Outline

/-- The text in what has been read. -/
def Builder.text (b : Builder) : List Char :=
  (b.root.map (·.textContent.toList)).getD [] ++
    b.opened.reverse.flatMap fun top => (Node.textContents top.children).toList

/-- What the reader comes to with a token, given the names of the open elements. -/
def stepToken (names : List (List Char)) (b : Builder) (t : Token) :
    Except XmlError (List (List Char) × Builder) := do
  let (event, names) ← Event.ofToken names t
  return (names, ← b.step event)

def Outline.of : List (List Char) × Builder → Outline
  | (names, b) => ⟨names, b.root.isSome, b.text⟩

variable {names : List (List Char)} {b : Builder} {cs rest : List Char}

/-- A node in the innermost open element, or as the root, adds its text at the end. -/
theorem of_attach (h : names.length = b.opened.length) (n : Node) :
    (b.attach n).toOption.map (fun b => Outline.of (names, b)) =
      Outline.complete? { Outline.of (names, b) with text := b.text ++ n.textContent.toList } := by
  obtain ⟨declaration, opened, root⟩ := b
  cases opened with
  | nil =>
    obtain rfl := List.length_eq_zero_iff.1 h
    cases root with
    | none => simp [Builder.attach, Outline.complete?, Outline.of, Builder.text, Except.toOption]
    | some r => simp [Builder.attach, Outline.complete?, Outline.of, Except.toOption]
  | cons top opened =>
    have hne : names ≠ [] := by rintro rfl; cases h
    simp [Builder.attach, Outline.complete?, Outline.of, Builder.text, Except.toOption, hne,
      Node.textContents_append, Node.textContents]

theorem toOption_bind_pair {names : List (List Char)} (x : Except XmlError Builder) :
    (x >>= fun b => pure (names, b)).toOption.map Outline.of =
      x.toOption.map fun b => Outline.of (names, b) := by
  cases x <;> rfl

theorem isEmpty_opened_iff (h : names.length = b.opened.length) :
    b.opened.isEmpty = true ↔ names = [] := by
  rw [List.isEmpty_iff, ← List.length_eq_zero_iff, ← h, List.length_eq_zero_iff]

theorem of_stepToken_text (h : names.length = b.opened.length) (w : List Char) :
    (stepToken names b (.text w)).toOption.map Outline.of =
      (Outline.of (names, b)).next? (.text w) := by
  refine (toOption_bind_pair (b.step (.text (String.ofList w)))).trans ?_
  rw [Builder.step, Outline.next?, Outline.say, Outline.of, String.toList_ofList]
  by_cases hn : names = []
  · rw [if_pos ((isEmpty_opened_iff h).2 hn), if_pos hn]
    rfl
  · rw [if_neg (mt (isEmpty_opened_iff h).1 hn), if_neg hn]
    cases unescape? w with
    | none => rfl
    | some s =>
      refine (of_attach h _).trans ?_
      simp [Outline.complete?, Outline.of, hn, Node.textContent]

theorem of_stepToken_data (h : names.length = b.opened.length) (w : List Char) :
    (stepToken names b (.data w)).toOption.map Outline.of =
      (Outline.of (names, b)).next? (.data w) := by
  refine (toOption_bind_pair (b.step (.data (String.ofList w)))).trans ?_
  rw [Builder.step, Outline.next?, Outline.of]
  by_cases hn : names = []
  · rw [if_pos ((isEmpty_opened_iff h).2 hn), if_pos hn]
    rfl
  · rw [if_neg (mt (isEmpty_opened_iff h).1 hn), if_neg hn]
    refine (of_attach h _).trans ?_
    simp [Outline.complete?, Outline.of, hn, Node.textContent]

theorem of_stepToken_opening (name content : List Char) :
    (stepToken names b (.opening name content)).toOption.map Outline.of =
      (Outline.of (names, b)).next? (.opening name content) := by
  rw [stepToken, Event.ofToken, Outline.next?]
  cases elementAttributes content with
  | error e => rfl
  | ok attributes =>
    simp [Builder.step, Outline.of, Builder.text, Except.toOption, Node.textContents, bind,
      Except.bind, pure, Except.pure]

theorem of_stepToken_empty (h : names.length = b.opened.length) (name content : List Char) :
    (stepToken names b (.empty name content)).toOption.map Outline.of =
      (Outline.of (names, b)).next? (.empty name content) := by
  rw [stepToken, Event.ofToken, Outline.next?]
  cases elementAttributes content with
  | error e => rfl
  | ok attributes =>
    refine (toOption_bind_pair (b.attach (.element (String.ofList name) attributes []))).trans ?_
    rw [of_attach h]
    simp [Outline.of, Except.toOption, Node.textContent, Node.textContents]

theorem of_stepToken_closing (h : names.length = b.opened.length) (name : List Char) :
    (stepToken names b (.closing name)).toOption.map Outline.of =
      (Outline.of (names, b)).next? (.closing name) := by
  obtain ⟨declaration, opened, root⟩ := b
  cases names with
  | nil => rfl
  | cons expected names =>
    cases opened with
    | nil => cases h
    | cons top opened =>
      rw [stepToken, Event.ofToken, Outline.next?, Outline.of]
      simp only
      by_cases hname : name = expected
      · rw [if_pos hname, if_pos hname]
        refine (toOption_bind_pair
          (Builder.attach ⟨declaration, opened, root⟩ top.toNode)).trans ?_
        rw [of_attach (Nat.succ.inj h)]
        simp [Outline.of, Builder.text, OpenElement.toNode, Node.textContent]
      · rw [if_neg hname, if_neg hname]
        rfl

/-- Nothing comes of a token exactly if it cannot stand there; else its outline is the next one. -/
theorem of_stepToken (h : names.length = b.opened.length) (t : Token) :
    (stepToken names b t).toOption.map Outline.of = (Outline.of (names, b)).next? t := by
  cases t with
  | text w => exact of_stepToken_text h w
  | data w => exact of_stepToken_data h w
  | aside => rfl
  | declaration content =>
    rw [stepToken, Event.ofToken, Outline.next?]
    cases Declaration.read content <;> rfl
  | opening name content => exact of_stepToken_opening name content
  | empty name content => exact of_stepToken_empty h name content
  | closing name => exact of_stepToken_closing h name

/-- The builder has as many open elements as there are names. -/
theorem length_of_stepToken {names' : List (List Char)} {b' : Builder} {t : Token}
    (h : names.length = b.opened.length) (ht : stepToken names b t = .ok (names', b')) :
    names'.length = b'.opened.length := by
  obtain ⟨⟨e, ns⟩, he, hb⟩ := Except.bind_eq_ok.1 ht
  obtain ⟨b₁, hb, hpair⟩ := Except.bind_eq_ok.1 hb
  cases hpair
  have hlength := Builder.length_of_step hb
  cases t with
  | text w | data w | aside =>
    cases he
    rw [Event.rise] at hlength
    omega
  | declaration content =>
    obtain ⟨d, -, he⟩ := Except.bind_eq_ok.1 he
    cases he
    rw [Event.rise] at hlength
    omega
  | opening name content =>
    obtain ⟨attributes, -, he⟩ := Except.bind_eq_ok.1 he
    cases he
    rw [Event.rise] at hlength
    rw [List.length_cons]
    omega
  | empty name content =>
    obtain ⟨attributes, -, he⟩ := Except.bind_eq_ok.1 he
    cases he
    rw [Event.rise] at hlength
    omega
  | closing name =>
    cases names with
    | nil => cases he
    | cons expected names =>
      rw [Event.ofToken] at he
      split at he
      · cases he
        rw [Event.rise] at hlength
        rw [List.length_cons] at h
        omega
      · cases he

/-! ## Runs -/

/-- Reading a text takes one outline to another. -/
inductive Runs : Outline → List Char → Outline → Prop where
  | done {o : Outline} {cs : List Char} : Token.read cs = .ok none → Runs o cs o
  | step {o o₁ o₂ : Outline} {cs rest : List Char} {t : Token} :
    Token.read cs = .ok (some (t, rest)) → o.next? t = some o₁ → Runs o₁ rest o₂ → Runs o cs o₂

/-- The rest of a text, read by a builder, makes a document with this text. -/
def Finishes (names : List (List Char)) (b : Builder) (cs text : List Char) : Prop :=
  ∃ b', (Event.all names cs).1.foldlM Builder.step b = .ok b' ∧ (Event.all names cs).2 = none ∧
    ∃ document, b'.finish = .ok document ∧ document.root.textContent.toList = text

theorem finishes_of_read {t : Token} (ht : Token.read cs = .ok (some (t, rest)))
    {text : List Char} : Finishes names b cs text ↔
      ∃ names' b', stepToken names b t = .ok (names', b') ∧ Finishes names' b' rest text := by
  cases he : Event.ofToken names t with
  | error e =>
    have hall : Event.all names cs = ([], some e) := by
      rw [Event.all]
      split
      · rename_i h
        cases ht.symm.trans h
      · rename_i h
        cases ht.symm.trans h
      · rename_i h
        cases ht.symm.trans h
        rw [he]
    refine iff_of_false ?_ ?_
    · rintro ⟨b', -, hnone, -⟩
      rw [hall] at hnone
      cases hnone
    · rintro ⟨names', b', h, -⟩
      rw [stepToken, he] at h
      cases h
  | ok r =>
    obtain ⟨event, names₁⟩ := r
    have hstep : stepToken names b t = (b.step event).map fun b => (names₁, b) := by
      refine (congrArg (· >>= _) he).trans ?_
      cases h : b.step event <;> simp [bind, Except.bind, h, Except.map, pure, Except.pure]
    rw [Finishes, Event.all_of_read ht he, List.foldlM_cons, hstep]
    constructor
    · rintro ⟨b', hb, hrest⟩
      obtain ⟨b₁, hb₁, hb⟩ := Except.bind_eq_ok.1 hb
      exact ⟨names₁, b₁, Except.map_eq_ok.2 ⟨b₁, hb₁, rfl⟩, b', hb, hrest⟩
    · rintro ⟨names', b₁, h, b', hb, hrest⟩
      obtain ⟨b₂, hb₂, hpair⟩ := Except.map_eq_ok.1 h
      cases hpair
      exact ⟨b', Except.bind_eq_ok.2 ⟨b₁, hb₂, hb⟩, hrest⟩

theorem finishes_of_read_none (hcs : Token.read cs = .ok none) (h : names.length = b.opened.length)
    {text : List Char} : Finishes names b cs text ↔ Outline.of (names, b) = .complete text := by
  have hall : Event.all names cs = ([], none) := by
    rw [Event.all]
    split
    · rename_i h
      cases hcs.symm.trans h
    · rfl
    · rename_i h
      cases hcs.symm.trans h
  obtain ⟨declaration, opened, root⟩ := b
  rw [Finishes, hall, Outline.complete]
  cases opened with
  | cons top opened =>
    refine iff_of_false ?_ ?_
    · rintro ⟨b', hb, -, document, hd, -⟩
      cases hb
      cases hd
    · intro ho
      obtain rfl : names = [] := congrArg Outline.opened ho
      cases h
  | nil =>
    obtain rfl := List.length_eq_zero_iff.1 h
    cases root with
    | none =>
      refine iff_of_false ?_ ?_
      · rintro ⟨b', hb, -, document, hd, -⟩
        cases hb
        cases hd
      · intro ho
        cases congrArg Outline.rooted ho
    | some root =>
      have htext : (Builder.mk declaration [] (some root)).text = root.textContent.toList := by
        simp [Builder.text]
      constructor
      · rintro ⟨b', hb, -, document, hd, ht⟩
        cases hb
        cases hd
        rw [Outline.of, htext, ← ht]
        rfl
      · intro ho
        exact ⟨_, rfl, rfl, ⟨declaration, root⟩, rfl, htext.symm.trans (congrArg Outline.text ho)⟩

theorem Runs.of_read_eq {o o₂ : Outline} {t : Token} (ht : Token.read cs = .ok (some (t, rest))) :
    Runs o cs o₂ ↔ ∃ o₁, o.next? t = some o₁ ∧ Runs o₁ rest o₂ := by
  constructor
  · intro h
    cases h with
    | done h' => cases ht.symm.trans h'
    | step h' hnext hrest =>
      cases ht.symm.trans h'
      exact ⟨_, hnext, hrest⟩
  · rintro ⟨o₁, hnext, hrest⟩
    exact .step ht hnext hrest

theorem Runs.of_read_none {o o₂ : Outline} (ht : Token.read cs = .ok none) :
    Runs o cs o₂ ↔ o = o₂ := by
  constructor
  · intro h
    cases h with
    | done => rfl
    | step h' => cases ht.symm.trans h'
  · rintro rfl
    exact .done ht

theorem Runs.read_ne_error {o o₂ : Outline} (h : Runs o cs o₂) (e : XmlError) :
    Token.read cs ≠ .error e := by
  intro he
  cases h with
  | done h' => cases he.symm.trans h'
  | step h' => cases he.symm.trans h'

/-- What the reader makes of a text is a matter of the outlines. -/
theorem finishes_iff (h : names.length = b.opened.length) {text : List Char} :
    Finishes names b cs text ↔ Runs (Outline.of (names, b)) cs (.complete text) := by
  induction hn : cs.length using Nat.strongRecOn generalizing cs names b with
  | ind n ih =>
    cases ht : Token.read cs with
    | error e =>
      refine iff_of_false ?_ ?_
      · rintro ⟨b', -, hnone, -⟩
        rw [Event.all] at hnone
        split at hnone
        · cases hnone
        · rename_i h'
          cases ht.symm.trans h'
        · rename_i h'
          cases ht.symm.trans h'
      · intro hruns
        exact hruns.read_ne_error e ht
    | ok r =>
      cases r with
      | none => rw [finishes_of_read_none ht h, Runs.of_read_none ht]
      | some r =>
        obtain ⟨t, rest⟩ := r
        have hlt : rest.length < n := hn ▸ Token.read_shorter ht
        rw [finishes_of_read ht, Runs.of_read_eq ht, ← of_stepToken h]
        constructor
        · rintro ⟨names', b', hstep, hrest⟩
          refine ⟨Outline.of (names', b'), by rw [hstep]; rfl, ?_⟩
          exact (ih _ hlt (length_of_stepToken h hstep) rfl).1 hrest
        · rintro ⟨o₁, hstep, hrest⟩
          obtain ⟨⟨names', b'⟩, hp, rfl⟩ := Option.map_eq_some_iff.1 hstep
          have hok : stepToken names b t = .ok (names', b') := by
            cases hs : stepToken names b t with
            | error e => rw [hs] at hp; cases hp
            | ok p => rw [hs] at hp; cases hp; rfl
          exact ⟨names', b', hok, (ih _ hlt (length_of_stepToken h hok) rfl).2 hrest⟩

/-- A text is a document with some text exactly if its outlines run to that. -/
theorem exists_parse_iff (x text : String) :
    (∃ document, Document.parse x = .ok document ∧ document.root.textContent = text) ↔
      Runs .initial (withoutMark x.toList) (.complete text.toList) := by
  have hruns : Finishes [] .initial (withoutMark x.toList) text.toList ↔
      Runs .initial (withoutMark x.toList) (.complete text.toList) := finishes_iff rfl
  rw [← hruns, Finishes, Document.parse, Event.ofText]
  cases hall : Event.all [] (withoutMark x.toList) with
  | mk events error =>
    simp only
    constructor
    · rintro ⟨document, hd, htext⟩
      obtain ⟨b', hb, hfinish⟩ := Except.bind_eq_ok.1 hd
      cases error with
      | some e => cases hfinish
      | none => exact ⟨b', hb, rfl, document, hfinish, congrArg String.toList htext⟩
    · rintro ⟨b', hb, rfl, document, hfinish, htext⟩
      exact ⟨document, Except.bind_eq_ok.2 ⟨b', hb, hfinish⟩, String.toList_inj.1 htext⟩

end FormLetter.Xml
