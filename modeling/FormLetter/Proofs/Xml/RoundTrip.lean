import FormLetter.Proofs.Tree.Normal
import FormLetter.Proofs.Xml.Tag
import FormLetter.Xml.Reader

/-!
# Written documents read back

`ReadsElement` and `ReadsNodes` say tag by tag what nodes are read from a text. The reader makes
just these of it (`ReadsElement.exists_events`), and from what is written for a tree its normal form
is read (`readsNodes_writeNode`), for an empty text cannot be seen, nor where a text ends and the
next begins. So a document that is written reads back up to that (`Document.parse_write`).
-/

namespace FormLetter.Xml

open FormLetter.Text

def IsTag (name : String) (attributes : List (String × String)) : Prop :=
  IsName name.toList ∧ AreAttributes attributes

/-- A tree whose names are names, each attribute of an element with one of its own. -/
def Writable (n : Node) : Prop := n.Everywhere IsTag fun _ => True

def AtMarkup (cs : List Char) : Prop := cs = [] ∨ ∃ ds, cs = '<' :: ds

mutual

/-- An element is read from the front of a text, and the rest is left. -/
inductive ReadsElement : List Char → Node → List Char → Prop where
  | empty {cs rest name content : List Char} {attributes : List (String × String)} :
    Token.read cs = .ok (some (.empty name content, rest)) →
    elementAttributes content = .ok attributes →
    ReadsElement cs (.element (String.ofList name) attributes []) rest
  | element {cs inside after rest name content : List Char} {attributes : List (String × String)}
      {children : List Node} :
    Token.read cs = .ok (some (.opening name content, inside)) →
    elementAttributes content = .ok attributes →
    ReadsNodes inside children after →
    Token.read after = .ok (some (.closing name, rest)) →
    ReadsElement cs (.element (String.ofList name) attributes children) rest

/-- Nodes are read from the front of a text, and the rest is left. -/
inductive ReadsNodes : List Char → List Node → List Char → Prop where
  | nil {rest : List Char} : AtMarkup rest → ReadsNodes rest [] rest
  | text {cs rest w s : List Char} {ns : List Node} :
    w ≠ [] → '<' ∉ w → AtMarkup cs → unescape? w = some s → ReadsNodes cs ns rest →
    ReadsNodes (w ++ cs) (.text (String.ofList s) :: ns) rest
  | cons {cs mid rest : List Char} {n : Node} {ns : List Node} :
    AtMarkup cs → ReadsElement cs n mid → ReadsNodes mid ns rest → ReadsNodes cs (n :: ns) rest

end

theorem Event.all_of_read {opened opened' : List (List Char)} {cs rest : List Char} {t : Token}
    {event : Event} (ht : Token.read cs = .ok (some (t, rest)))
    (he : Event.ofToken opened t = .ok (event, opened')) :
    Event.all opened cs = (event :: (Event.all opened' rest).1, (Event.all opened' rest).2) := by
  rw [Event.all]
  split
  · rename_i h
    cases ht.symm.trans h
  · rename_i h
    cases ht.symm.trans h
  · rename_i h
    cases ht.symm.trans h
    rw [he]

/-- Events come first of all that follow, whatever elements are open. -/
def Precede (events : List Event) (cs rest : List Char) : Prop :=
  ∀ opened, Event.all opened cs =
    (events ++ (Event.all opened rest).1, (Event.all opened rest).2)

theorem Builder.attach_children (top : OpenElement) (b : Builder) (ns : List Node) :
    ns.foldlM Builder.attach { b with opened := top :: b.opened } =
      .ok { b with opened := { top with children := top.children ++ ns } :: b.opened } := by
  induction ns generalizing top with
  | nil => rw [List.append_nil]; rfl
  | cons n ns ih =>
    rw [List.foldlM_cons]
    refine (ih { top with children := top.children ++ [n] }).trans ?_
    simp

theorem Builder.step_text {b : Builder} {w s : List Char} (h : b.opened ≠ [])
    (hs : unescape? w = some s) :
    b.step (.text (String.ofList w)) = b.attach (.text (String.ofList s)) := by
  rw [step, if_neg (by simpa using h), String.toList_ofList, hs]

theorem Builder.opened_ne_nil_of_attach {b b' : Builder} {n : Node} (h : b.opened ≠ [])
    (hb : b.attach n = .ok b') : b'.opened ≠ [] := by
  rw [attach] at hb
  split at hb
  · cases hb
    exact List.cons_ne_nil _ _
  · rename_i hnil
    exact absurd hnil h

mutual

/-- An element that is read has events that add it. -/
theorem ReadsElement.exists_events {cs rest : List Char} {n : Node} :
    ReadsElement cs n rest →
      ∃ events, Precede events cs rest ∧ ∀ b, events.foldlM Builder.step b = b.attach n
  | @ReadsElement.empty _ _ name _ attributes ht ha => by
    refine ⟨[.empty (String.ofList name) attributes], fun opened => ?_, fun b => ?_⟩
    · refine Event.all_of_read ht ?_
      rw [Event.ofToken, ha]
      rfl
    · rw [List.foldlM_cons]
      exact bind_pure _
  | @ReadsElement.element _ _ _ _ name content attributes children ht ha hc he => by
    obtain ⟨events, hevents, hb⟩ := hc.exists_events
    refine ⟨.start (String.ofList name) attributes :: (events ++ [.finish]), fun opened => ?_,
      fun b => ?_⟩
    · have hstart : Event.ofToken opened (.opening name content) =
          .ok (.start (String.ofList name) attributes, name :: opened) := by
        rw [Event.ofToken, ha]
        rfl
      have hfinish : Event.ofToken (name :: opened) (.closing name) = .ok (.finish, opened) :=
        if_pos rfl
      rw [Event.all_of_read ht hstart, hevents, Event.all_of_read he hfinish]
      simp
    · have hopened : OpenElement.mk (String.ofList name) attributes [] :: b.opened ≠ [] :=
        List.cons_ne_nil _ _
      have hchildren := (hb { b with opened := _ } hopened).trans
        (Builder.attach_children ⟨String.ofList name, attributes, []⟩ b children)
      rw [List.foldlM_cons]
      refine (List.foldlM_append ..).trans ?_
      rw [hchildren]
      exact bind_pure (b.attach (.element (String.ofList name) attributes children))

/-- Nodes that are read have events that add them to the innermost open element. -/
theorem ReadsNodes.exists_events {cs rest : List Char} {ns : List Node} :
    ReadsNodes cs ns rest →
      ∃ events, Precede events cs rest ∧
        ∀ b : Builder, b.opened ≠ [] → events.foldlM Builder.step b = ns.foldlM Builder.attach b
  | .nil _ => ⟨[], fun _ => rfl, fun _ _ => rfl⟩
  | @ReadsNodes.text _ _ w _ _ hne hw hcs hs hns => by
    obtain ⟨events, hevents, hb⟩ := hns.exists_events
    refine ⟨.text (String.ofList w) :: events, fun opened => ?_, fun b hopened => ?_⟩
    · rw [Event.all_of_read (Token.read_text hne hw hcs) rfl, hevents]
      rfl
    · rw [List.foldlM_cons, List.foldlM_cons, Builder.step_text hopened hs]
      cases h : b.attach (.text (String.ofList _)) with
      | error e => rfl
      | ok b' => exact hb b' (Builder.opened_ne_nil_of_attach hopened h)
  | .cons _ hn hns => by
    obtain ⟨first, hfirst, hb⟩ := hn.exists_events
    obtain ⟨others, hothers, hb'⟩ := hns.exists_events
    refine ⟨first ++ others, fun opened => ?_, fun b hopened => ?_⟩
    · rw [hfirst, hothers]
      simp
    · rw [List.foldlM_append, hb, List.foldlM_cons]
      cases h : b.attach _ with
      | error e => rfl
      | ok b' => exact hb' b' (Builder.opened_ne_nil_of_attach hopened h)

end

/-! ## What is written -/

/-- A text in front of nodes is read as one with a text that they start with. -/
theorem ReadsNodes.prepend {cs rest : List Char} {ns : List Node} (h : ReadsNodes cs ns rest)
    (s : String) : ReadsNodes (escape s.toList ++ cs) (Node.joinFront (.text s) ns) rest := by
  by_cases hs : s = ""
  · rw [hs, Node.joinFront_empty]
    exact h
  · have hne : escape s.toList ≠ [] := escape_ne_nil (by simpa using hs)
    have hlt : '<' ∉ escape s.toList := not_mem_escape (by simp) _
    cases h with
    | nil hrest =>
      have hread := ReadsNodes.text hne hlt hrest (unescape?_escape _) (.nil hrest)
      have hapart : Node.Apart (.text s) [] := ⟨hs, rfl⟩
      rw [String.ofList_toList] at hread
      rw [Node.joinFront_of_apart hapart]
      exact hread
    | @text cs _ w t ms hne' hlt' hcs ht hns =>
      have hread := ReadsNodes.text (w := escape s.toList ++ w) (by simp [hne'])
        (by simp [hlt, hlt']) hcs (unescape?_escape_append ht _) hns
      rw [String.ofList_append, String.ofList_toList] at hread
      rw [← List.append_assoc]
      exact hread
    | @cons _ _ _ n ns hcs hn hns =>
      have hread := ReadsNodes.text hne hlt hcs (unescape?_escape _) (.cons hcs hn hns)
      have hapart : Node.Apart (.text s) (n :: ns) := ⟨hs, by cases hn <;> rfl⟩
      rw [String.ofList_toList] at hread
      rw [Node.joinFront_of_apart hapart]
      exact hread

theorem readsElement_write {name : String} {attributes : List (String × String)}
    {children : List Node} (htag : IsTag name attributes)
    (hc : ∀ rest, AtMarkup rest →
      ReadsNodes (writeNodes children ++ rest) (Node.normaliseAll children) rest)
    (rest : List Char) :
    ReadsElement (writeNode (.element name attributes children) ++ rest)
      (.element name attributes (Node.normaliseAll children)) rest := by
  obtain ⟨hname, ha⟩ := htag
  have hattributes := elementAttributes_write ha
  by_cases hne : children = []
  · subst hne
    have hread := Token.read_empty hname ha.readable rest
    rw [← flatMap_writeAttribute] at hread
    have helement := ReadsElement.empty hread hattributes
    rw [String.ofList_toList] at helement
    have hwrite : writeNode (.element name attributes []) ++ rest =
        '<' :: (name.toList ++ attributes.flatMap writeAttribute ++ '/' :: '>' :: rest) := by
      simp [writeNode_nil]
    rw [hwrite]
    exact helement
  · have hread := Token.read_opening hname ha.readable
      (writeNodes children ++ '<' :: '/' :: (name.toList ++ '>' :: rest))
    rw [← flatMap_writeAttribute] at hread
    have helement := ReadsElement.element hread hattributes (hc _ (.inr ⟨_, rfl⟩))
      (Token.read_closing hname rest)
    rw [String.ofList_toList] at helement
    have hwrite : writeNode (.element name attributes children) ++ rest =
        '<' :: (name.toList ++ attributes.flatMap writeAttribute ++
          '>' :: (writeNodes children ++ '<' :: '/' :: (name.toList ++ '>' :: rest))) := by
      simp [writeNode_of_ne_nil hne]
    rw [hwrite]
    exact helement

theorem exists_writeNode_eq (name : String) (attributes : List (String × String))
    (children : List Node) : ∃ cs, writeNode (.element name attributes children) = '<' :: cs := by
  cases children with
  | nil => exact ⟨_, rfl⟩
  | cons child others => exact ⟨_, rfl⟩

mutual

/-- A node that is written in front of nodes is read with them. -/
theorem readsNodes_writeNode {cs rest : List Char} {ns : List Node} : (n : Node) → Writable n →
    ReadsNodes cs ns rest → ReadsNodes (writeNode n ++ cs) (Node.joinFront n.normalise ns) rest
  | .text s, _, h => h.prepend s
  | .element name attributes children, ⟨htag, hc⟩, h => by
    have hread := readsElement_write htag (fun _ => readsNodes_writeNodes children hc) cs
    obtain ⟨ds, hds⟩ := exists_writeNode_eq name attributes children
    have hmarkup : AtMarkup (writeNode (.element name attributes children) ++ cs) := by
      rw [hds]
      exact .inr ⟨_, rfl⟩
    exact .cons hmarkup hread h

/-- What is written for nodes is read as their normal form. -/
theorem readsNodes_writeNodes {rest : List Char} : (ns : List Node) →
    Node.EverywhereAll IsTag (fun _ => True) ns → AtMarkup rest →
    ReadsNodes (writeNodes ns ++ rest) (Node.normaliseAll ns) rest
  | [], _, hrest => .nil hrest
  | n :: ns, ⟨hn, hns⟩, hrest => by
    rw [writeNodes, List.append_assoc]
    exact readsNodes_writeNode n hn (readsNodes_writeNodes ns hns hrest)

end

/-! ## Documents -/

/-- A document that can be written: a declaration whose values stand in it as they are, and an
element with names that are names. -/
def Document.Writable (d : Document) : Prop :=
  (∀ declaration ∈ d.declaration, declaration.Plain) ∧ d.root.name?.isSome = true ∧
    Xml.Writable d.root

theorem Precede.append {first others : List Event} {cs mid rest : List Char}
    (h : Precede first cs mid) (h' : Precede others mid rest) : Precede (first ++ others) cs rest :=
  fun opened => by
    rw [h, h']
    simp

theorem Declaration.precede_write {d : Declaration} (h : d.Plain) {rest : List Char}
    (hrest : AtMarkup rest) :
    Precede [.declaration d, .text "\r\n"] (d.write ++ rest) rest := fun opened => by
  have hd : Event.ofToken opened (.declaration (d.attributes.flatMap Attribute.write)) =
      .ok (.declaration d, opened) := by
    rw [Event.ofToken, Declaration.read_write h]
    rfl
  rw [Event.all_of_read (Token.read_declaration h rest) hd,
    Event.all_of_read (Token.read_text (by decide) (by decide) hrest) rfl]
  rfl

def prologue (declaration : Option Declaration) : List Event :=
  (declaration.map fun d => [.declaration d, .text "\r\n"]).getD []

theorem precede_prologue {declaration : Option Declaration}
    (h : ∀ d ∈ declaration, d.Plain) {rest : List Char} (hrest : AtMarkup rest) :
    Precede (prologue declaration) ((declaration.map Declaration.write).getD [] ++ rest) rest := by
  cases declaration with
  | none => exact fun _ => rfl
  | some d => exact Declaration.precede_write (h d rfl) hrest

theorem foldlM_prologue (declaration : Option Declaration) :
    (prologue declaration).foldlM Builder.step .initial = .ok ⟨declaration, [], none⟩ := by
  cases declaration <;> rfl

/-- A text is read as what its events build. -/
theorem Document.parse_of_precede {cs : List Char} {events : List Event} {b : Builder}
    (hmark : withoutMark cs = cs) (h : Precede events cs [])
    (hb : events.foldlM Builder.step .initial = .ok b) :
    Document.parse (String.ofList cs) = b.finish := by
  have hnil : Event.all [] [] = ([], none) := by
    rw [Event.all]
    rfl
  have hevents : Event.ofText (String.ofList cs) = (events, none) := by
    rw [Event.ofText, String.toList_ofList, hmark, h, hnil, List.append_nil]
  rw [parse, hevents]
  simp only [hb]
  rfl

/-- A document that is written reads back with its tree in normal form. -/
theorem Document.parse_write {d : Document} (h : d.Writable) :
    Document.parse d.write = .ok ⟨d.declaration, d.root.normalise⟩ := by
  obtain ⟨declaration, root⟩ := d
  obtain ⟨hd, hroot, hw⟩ := h
  cases root with
  | text s => cases hroot
  | element name attributes children =>
    obtain ⟨htag, hc⟩ := hw
    have hread := readsElement_write htag (fun _ => readsNodes_writeNodes children hc) []
    obtain ⟨events, hevents, hb⟩ := hread.exists_events
    rw [List.append_nil] at hevents
    obtain ⟨cs, hcs⟩ := exists_writeNode_eq name attributes children
    have hmark : withoutMark ((declaration.map Declaration.write).getD [] ++
        writeNode (.element name attributes children)) =
          (declaration.map Declaration.write).getD [] ++
            writeNode (.element name attributes children) := by
      rw [hcs]
      cases declaration <;> rfl
    have hall := (precede_prologue hd (.inr ⟨cs, hcs⟩)).append hevents
    refine (Document.parse_of_precede (b := ⟨declaration, [], some _⟩) hmark hall ?_).trans rfl
    rw [List.foldlM_append, foldlM_prologue]
    exact hb _

/-- A paragraph with all that is escaped, with texts next to each other, and with empty ones. -/
def paragraph : Document :=
  ⟨some ⟨"1.0", some "UTF-8", none⟩,
    .element "w:p" [("w:id", "\"<&>'"), ("xml:space", "preserve")]
      [.text "", .element "w:t" [] [.text "1 < 2", .text "", .text " & \"2 > 1\""],
        .element "w:t" [] [.text ""]]⟩

theorem paragraph_parse_write :
    paragraph.Writable ∧ Document.parse paragraph.write =
      .ok ⟨some ⟨"1.0", some "UTF-8", none⟩,
        .element "w:p" [("w:id", "\"<&>'"), ("xml:space", "preserve")]
          [.element "w:t" [] [.text "1 < 2 & \"2 > 1\""], .element "w:t" [] []]⟩ := by
  have hplain : ∀ d ∈ paragraph.declaration, d.Plain := by
    rintro d ⟨⟩
    decide
  have hname : IsName "w:t".toList := by decide
  have hp : IsTag "w:p" [("w:id", "\"<&>'"), ("xml:space", "preserve")] := by
    unfold IsTag AreAttributes
    decide
  have ht : IsTag "w:t" [] := ⟨hname, List.forall_mem_nil _, List.nodup_nil⟩
  have h : paragraph.Writable :=
    ⟨hplain, rfl, hp, trivial, ⟨ht, trivial, trivial, trivial, trivial⟩, ⟨ht, trivial, trivial⟩,
      trivial⟩
  exact ⟨h, Document.parse_write h⟩

end FormLetter.Xml
