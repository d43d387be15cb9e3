import FormLetter.Proofs.Failure
import FormLetter.Xml.Reader
import Mathlib.Combinatorics.Enumerative.DyckWord

/-!
# Documents built of events

A sequence of events makes a document exactly if its elements make one nested pair of brackets and
the texts in them can be read; what else comes of it is the error of the first event that cannot
stand where it does, or of the end (`ofEvents_balanced`). The tree, gone through from its
front to its end, is what the events in elements say (`content`).

That an event completes a root, or cannot stand, is said of the events before it (`Completes`,
`Offends`). `Builder.Holds` says what a builder knows of them.
-/

namespace FormLetter

open DyckStep

/-- What one meets on the way through a tree. -/
inductive Node.Piece where
  | opening (name : String) (attributes : List (String × String))
  | closing
  | text (content : String)
  deriving DecidableEq

/-- The bracket that a piece is, if it is one. -/
def Node.Piece.brackets : Node.Piece → List DyckStep
  | .opening .. => [U]
  | .closing => [D]
  | .text _ => []

namespace Node

mutual

/-- The pieces of a tree, from its front to its end. -/
def pieces : Node → List Piece
  | .text s => [.text s]
  | .element name attributes children =>
    .opening name attributes :: (childPieces children ++ [.closing])

def childPieces : List Node → List Piece
  | [] => []
  | n :: ns => n.pieces ++ childPieces ns

end

theorem childPieces_append (ns ms : List Node) :
    childPieces (ns ++ ms) = childPieces ns ++ childPieces ms := by
  induction ns with
  | nil => rfl
  | cons n ns ih => rw [List.cons_append, childPieces, childPieces, ih, List.append_assoc]

theorem childPieces_concat (ns : List Node) (n : Node) :
    childPieces (ns ++ [n]) = childPieces ns ++ n.pieces := by
  rw [childPieces_append, childPieces, childPieces, List.append_nil]

mutual

/-- The brackets of a tree match. -/
theorem exists_word_pieces :
    (n : Node) → ∃ p : DyckWord, n.pieces.flatMap Piece.brackets = p.toList
  | .text s => ⟨0, rfl⟩
  | .element name attributes children => by
    obtain ⟨p, hp⟩ := exists_word_childPieces children
    refine ⟨p.nest, ?_⟩
    rw [pieces, List.flatMap_cons, List.flatMap_append, hp]
    rfl

theorem exists_word_childPieces :
    (ns : List Node) → ∃ p : DyckWord, (childPieces ns).flatMap Piece.brackets = p.toList
  | [] => ⟨0, rfl⟩
  | n :: ns => by
    obtain ⟨p, hp⟩ := exists_word_pieces n
    obtain ⟨q, hq⟩ := exists_word_childPieces ns
    refine ⟨p + q, ?_⟩
    rw [childPieces, List.flatMap_append, hp, hq]
    rfl

end

theorem exists_nest_pieces (name : String) (attributes : List (String × String))
    (children : List Node) : ∃ p : DyckWord,
      (Node.element name attributes children).pieces.flatMap Piece.brackets = p.nest.toList := by
  obtain ⟨p, hp⟩ := exists_word_childPieces children
  refine ⟨p, ?_⟩
  rw [pieces, List.flatMap_cons, List.flatMap_append, hp]
  rfl

end Node

namespace Xml

/-! ## What events say -/

def Event.brackets : Event → List DyckStep
  | .start .. => [U]
  | .empty .. => [U, D]
  | .finish => [D]
  | .declaration _ | .text _ | .data _ | .aside => []

def Event.declaration? : Event → Option Declaration
  | .declaration d => some d
  | _ => none

def Event.rise : Event → Int
  | .start .. => 1
  | .finish => -1
  | .empty .. | .declaration _ | .text _ | .data _ | .aside => 0

/-- The brackets that the elements of a sequence of events make. -/
def brackets (events : List Event) : List DyckStep := events.flatMap Event.brackets

/-- How many elements are open after the events. -/
def depth (events : List Event) : Int := (brackets events).count U - (brackets events).count D

/-- What an event adds to a tree in which `d` elements are open. Texts outside are dropped. -/
def Event.pieces (d : Int) : Event → List Node.Piece
  | .start name attributes => [.opening name attributes]
  | .empty name attributes => [.opening name attributes, .closing]
  | .finish => [.closing]
  | .text written =>
    if d = 0 then []
    else ((unescape? written.toList).map fun s => Node.Piece.text (String.ofList s)).toList
  | .data content => if d = 0 then [] else [.text content]
  | .declaration _ | .aside => []

/-- What events add to a tree in which `d` elements are open. -/
def content (d : Int) : List Event → List Node.Piece
  | [] => []
  | e :: events => e.pieces d ++ content (d + e.rise) events

def lastDeclaration? (events : List Event) : Option Declaration :=
  (events.filterMap Event.declaration?).getLast?

theorem brackets_append (events more : List Event) :
    brackets (events ++ more) = brackets events ++ brackets more :=
  List.flatMap_append ..

theorem depth_append (events more : List Event) :
    depth (events ++ more) = depth events + depth more := by
  rw [depth, depth, depth, brackets_append, List.count_append, List.count_append]
  omega

theorem depth_singleton (e : Event) : depth [e] = e.rise := by
  cases e <;> rfl

theorem depth_concat (events : List Event) (e : Event) :
    depth (events ++ [e]) = depth events + e.rise := by
  rw [depth_append, depth_singleton]

theorem content_append (d : Int) (events more : List Event) :
    content d (events ++ more) = content d events ++ content (d + depth events) more := by
  induction events generalizing d with
  | nil => simp [content, depth, brackets]
  | cons e events ih =>
    have hd : depth (e :: events) = e.rise + depth events := by
      rw [← depth_singleton, ← depth_append, List.singleton_append]
    rw [List.cons_append, content, content, ih, hd, List.append_assoc, Int.add_assoc]

theorem content_concat (events : List Event) (e : Event) :
    content 0 (events ++ [e]) = content 0 events ++ e.pieces (depth events) := by
  rw [content_append, content, content, List.append_nil, Int.zero_add]

theorem lastDeclaration?_concat (events : List Event) (e : Event) :
    lastDeclaration? (events ++ [e]) = e.declaration?.or (lastDeclaration? events) := by
  rw [lastDeclaration?, List.filterMap_append, List.getLast?_append]
  cases e <;> rfl

theorem flatMap_brackets_content (d : Int) (events : List Event) :
    (content d events).flatMap Node.Piece.brackets = brackets events := by
  have hpieces (d : Int) (e : Event) :
      (e.pieces d).flatMap Node.Piece.brackets = e.brackets := by
    cases e with
    | text written =>
      rw [Event.pieces]
      cases unescape? written.toList <;> split <;> rfl
    | data written =>
      rw [Event.pieces]
      split <;> rfl
    | _ => rfl
  induction events generalizing d with
  | nil => rfl
  | cons e events ih =>
    rw [content, List.flatMap_append, hpieces, ih]
    rfl

/-! ## Where an event can stand -/

/-- Some event has a property, which may depend on the events before it. -/
def Somewhere (P : List Event → Event → Prop) (events : List Event) : Prop :=
  ∃ front e back, events = front ++ e :: back ∧ P front e

theorem somewhere_concat {P : List Event → Event → Prop} {events : List Event} {e : Event} :
    Somewhere P (events ++ [e]) ↔ Somewhere P events ∨ P events e := by
  constructor
  · rintro ⟨front, x, back, h, hP⟩
    rcases List.eq_nil_or_concat back with rfl | ⟨back, y, rfl⟩
    · obtain ⟨rfl, hx⟩ := List.append_inj' h rfl
      cases hx
      exact .inr hP
    · rw [List.concat_eq_append, ← List.cons_append, ← List.append_assoc] at h
      exact .inl ⟨front, x, back, (List.append_inj' h rfl).1, hP⟩
  · rintro (⟨front, x, back, rfl, hP⟩ | hP)
    · exact ⟨front, x, back ++ [e], by rw [List.append_assoc, List.cons_append], hP⟩
    · exact ⟨events, e, [], rfl, hP⟩

/-- After the events in front, this one completes an element that stands in no other. -/
def Completes (front : List Event) : Event → Prop
  | .finish => depth front = 1
  | .empty .. => depth front = 0
  | .start .. | .declaration _ | .text _ | .data _ | .aside => False

/-- After the events in front, this one cannot stand. -/
inductive Offends (front : List Event) : Event → XmlError → Prop
  | closing : depth front = 0 → Offends front .finish .unexpectedClosing
  | root {e : Event} :
      Completes front e → Somewhere Completes front → Offends front e .multipleRoots
  | reference {written : String} :
      depth front ≠ 0 → unescape? written.toList = none →
        Offends front (.text written) .malformedReference

/-- Each event can stand where it does. -/
def Acceptable (events : List Event) : Prop :=
  ¬Somewhere (fun front e => ∃ err, Offends front e err) events

/-- The first event that cannot stand where it does has this error. -/
def FirstOffence (events : List Event) (err : XmlError) : Prop :=
  Somewhere (fun front e => Acceptable front ∧ Offends front e err) events

/-- The texts in elements can be read. -/
def TextsRead (events : List Event) : Prop :=
  ∀ front written back, events = front ++ .text written :: back →
    depth front = 0 ∨ ∃ s, unescape? written.toList = some s

/-- The pieces that have been read: those of the root, or of the elements that are open. -/
def Builder.pieces (b : Builder) : List Node.Piece :=
  (b.root.map Node.pieces).getD [] ++
    b.opened.reverse.flatMap fun top =>
      .opening top.name top.attributes :: Node.childPieces top.children

/-- The builder is what comes of these events. -/
structure Builder.Holds (b : Builder) (events : List Event) : Prop where
  depth : depth events = b.opened.length
  root : b.root.isSome ↔ Somewhere Completes events
  element : ∀ n, b.root = some n → ∃ name attributes children, n = .element name attributes children
  pieces : b.pieces = content 0 events
  declaration : b.declaration = lastDeclaration? events

theorem Builder.holds_initial : Builder.initial.Holds [] where
  depth := rfl
  root := by
    constructor
    · intro h
      cases h
    · rintro ⟨front, e, back, h, -⟩
      cases front <;> cases h
  element := fun _ h => by cases h
  pieces := rfl
  declaration := rfl

theorem attach_eq_error_iff {b : Builder} {n : Node} {err : XmlError} :
    b.attach n = .error err ↔ b.opened = [] ∧ b.root.isSome ∧ err = .multipleRoots := by
  obtain ⟨declaration, opened, root⟩ := b
  cases opened with
  | nil =>
    cases root with
    | none => simp [Builder.attach]
    | some r => simp [Builder.attach, eq_comm]
  | cons top rest => simp [Builder.attach]

/-- What a builder is with one more node, which is complete. -/
structure Builder.Extends (b b' : Builder) (n : Node) : Prop where
  opened : b'.opened.length = b.opened.length
  root : b'.root = if b.opened = [] then some n else b.root
  pieces : b'.pieces = b.pieces ++ n.pieces
  declaration : b'.declaration = b.declaration

theorem extends_of_attach {b b' : Builder} {n : Node} (h : b.attach n = .ok b') :
    b.Extends b' n := by
  obtain ⟨declaration, opened, root⟩ := b
  cases opened with
  | nil =>
    cases root with
    | none =>
      cases h
      exact ⟨rfl, rfl, by simp [Builder.pieces], rfl⟩
    | some r => cases h
  | cons top rest =>
    cases h
    refine ⟨rfl, rfl, ?_, rfl⟩
    simp [Builder.pieces, Node.childPieces_concat]

/-- A step leaves as many elements open as the event says. -/
theorem Builder.length_of_step {b b' : Builder} {e : Event} (h : b.step e = .ok b') :
    (b'.opened.length : Int) = b.opened.length + e.rise := by
  cases e with
  | declaration | start | aside =>
    cases h
    rfl
  | empty => exact congrArg Nat.cast (extends_of_attach h).opened
  | finish =>
    obtain ⟨declaration, opened, root⟩ := b
    cases opened with
    | nil => cases h
    | cons top rest =>
      have hlength : b'.opened.length = rest.length := (extends_of_attach h).opened
      rw [hlength, Event.rise, List.length_cons, Int.natCast_succ]
      exact (Int.add_neg_cancel_right _ 1).symm
  | text =>
    rw [step] at h
    split at h
    · cases h
      rfl
    · split at h
      · exact congrArg Nat.cast (extends_of_attach h).opened
      · cases h
  | data =>
    rw [step] at h
    split at h
    · cases h
      rfl
    · exact congrArg Nat.cast (extends_of_attach h).opened

section Step

variable {b b₀ b' : Builder} {front : List Event} {e : Event} {n : Node}

theorem Builder.Holds.keep (h : b.Holds front) (hrise : e.rise = 0)
    (hpieces : e.pieces (Xml.depth front) = []) (hcompletes : ¬Completes front e)
    (he : e.declaration? = none) : b.Holds (front ++ [e]) where
  depth := by rw [depth_concat, hrise, Int.add_zero, h.depth]
  root := by rw [h.root, somewhere_concat, or_iff_left hcompletes]
  element := h.element
  pieces := by rw [h.pieces, content_concat, hpieces, List.append_nil]
  declaration := by rw [h.declaration, lastDeclaration?_concat, he, Option.none_or]

/-- An event that completes a node `n`, with which `b₀` becomes `b'`. -/
theorem Builder.Holds.extend (h : b.Holds front) (hextends : b₀.Extends b' n)
    (hroot : b₀.root = b.root) (hdeclaration : b₀.declaration = b.declaration)
    (hdepth : Xml.depth (front ++ [e]) = b'.opened.length)
    (hpieces : b₀.pieces ++ n.pieces = b.pieces ++ e.pieces (Xml.depth front))
    (hcompletes : Completes front e ↔ b₀.opened = [])
    (helement : b₀.opened = [] → ∃ name attributes children, n = .element name attributes children)
    (he : e.declaration? = none) : b'.Holds (front ++ [e]) where
  depth := hdepth
  root := by
    rw [somewhere_concat, hcompletes, ← h.root, ← hroot, hextends.root]
    by_cases hopened : b₀.opened = [] <;> simp [hopened]
  element := by
    intro m hm
    rw [hextends.root] at hm
    by_cases hopened : b₀.opened = []
    · rw [if_pos hopened] at hm
      cases hm
      exact helement hopened
    · rw [if_neg hopened, hroot] at hm
      exact h.element m hm
  pieces := by rw [hextends.pieces, hpieces, h.pieces, content_concat]
  declaration := by
    rw [hextends.declaration, hdeclaration, h.declaration, lastDeclaration?_concat, he,
      Option.none_or]

theorem Builder.Holds.depth_eq_zero_iff (h : b.Holds front) :
    Xml.depth front = 0 ↔ b.opened = [] := by
  rw [h.depth, Int.natCast_eq_zero, List.length_eq_zero_iff]

theorem Builder.Holds.depth_eq_one_iff {declaration : Option Declaration} {top : OpenElement}
    {rest : List OpenElement} {root : Option Node}
    (h : (⟨declaration, top :: rest, root⟩ : Builder).Holds front) :
    Xml.depth front = 1 ↔ rest = [] := by
  have hd : Xml.depth front = rest.length + 1 := h.depth
  rw [hd, ← List.length_eq_zero_iff]
  omega

theorem Builder.Holds.depth_concat_of_step (h : b.Holds front) (hstep : b.step e = .ok b') :
    Xml.depth (front ++ [e]) = b'.opened.length := by
  rw [depth_concat, h.depth, Builder.length_of_step hstep]

theorem Builder.Holds.step_declaration (h : b.Holds front) {d : Declaration}
    (hstep : b.step (.declaration d) = .ok b') : b'.Holds (front ++ [.declaration d]) := by
  have hdepth := h.depth_concat_of_step hstep
  cases hstep
  refine ⟨hdepth, ?_, h.element, ?_, ?_⟩
  · rw [somewhere_concat, Completes, or_false]
    exact h.root
  · rw [content_concat, ← h.pieces]
    exact (List.append_nil _).symm
  · rw [lastDeclaration?_concat]
    rfl

theorem Builder.Holds.step_start (h : b.Holds front) {name : String}
    {attributes : List (String × String)} (hstep : b.step (.start name attributes) = .ok b') :
    b'.Holds (front ++ [.start name attributes]) := by
  have hdepth := h.depth_concat_of_step hstep
  cases hstep
  refine ⟨hdepth, ?_, h.element, ?_, ?_⟩
  · rw [somewhere_concat, Completes, or_false]
    exact h.root
  · rw [content_concat, ← h.pieces]
    simp [Builder.pieces, Node.childPieces, Event.pieces]
  · rw [lastDeclaration?_concat]
    exact h.declaration

theorem Builder.Holds.step_finish (h : b.Holds front) (hstep : b.step .finish = .ok b') :
    b'.Holds (front ++ [.finish]) := by
  have hdepth := h.depth_concat_of_step hstep
  obtain ⟨declaration, opened, root⟩ := b
  cases opened with
  | nil => cases hstep
  | cons top rest =>
    refine h.extend (extends_of_attach hstep) rfl rfl hdepth ?_ ?_ (fun _ => ⟨_, _, _, rfl⟩) rfl
    · simp [Builder.pieces, Event.pieces, OpenElement.toNode, Node.pieces]
    · exact h.depth_eq_one_iff

theorem Builder.Holds.step_text (h : b.Holds front) {written : String}
    (hstep : b.step (.text written) = .ok b') : b'.Holds (front ++ [.text written]) := by
  have hdepth := h.depth_concat_of_step hstep
  rw [Builder.step] at hstep
  by_cases hopened : b.opened = []
  · rw [if_pos (List.isEmpty_iff.2 hopened)] at hstep
    cases hstep
    refine h.keep rfl ?_ not_false rfl
    rw [Event.pieces, if_pos (h.depth_eq_zero_iff.2 hopened)]
  · rw [if_neg (mt List.isEmpty_iff.1 hopened)] at hstep
    cases hs : unescape? written.toList with
    | none =>
      rw [hs] at hstep
      cases hstep
    | some s =>
      rw [hs] at hstep
      refine h.extend (extends_of_attach hstep) rfl rfl hdepth ?_
        (iff_of_false not_false hopened) (absurd · hopened) rfl
      rw [Event.pieces, if_neg (mt h.depth_eq_zero_iff.1 hopened), hs]
      rfl

theorem Builder.Holds.step_data (h : b.Holds front) {written : String}
    (hstep : b.step (.data written) = .ok b') : b'.Holds (front ++ [.data written]) := by
  have hdepth := h.depth_concat_of_step hstep
  rw [Builder.step] at hstep
  by_cases hopened : b.opened = []
  · rw [if_pos (List.isEmpty_iff.2 hopened)] at hstep
    cases hstep
    refine h.keep rfl ?_ not_false rfl
    rw [Event.pieces, if_pos (h.depth_eq_zero_iff.2 hopened)]
  · rw [if_neg (mt List.isEmpty_iff.1 hopened)] at hstep
    refine h.extend (extends_of_attach hstep) rfl rfl hdepth ?_
      (iff_of_false not_false hopened) (absurd · hopened) rfl
    rw [Event.pieces, if_neg (mt h.depth_eq_zero_iff.1 hopened)]
    rfl

/-- After one more event the builder is what comes of the events with that one. -/
theorem Builder.Holds.step (h : b.Holds front) (hstep : b.step e = .ok b') :
    b'.Holds (front ++ [e]) := by
  cases e with
  | declaration d => exact h.step_declaration hstep
  | start name attributes => exact h.step_start hstep
  | empty name attributes =>
    exact h.extend (extends_of_attach hstep) rfl rfl (h.depth_concat_of_step hstep) rfl
      h.depth_eq_zero_iff (fun _ => ⟨_, _, _, rfl⟩) rfl
  | finish => exact h.step_finish hstep
  | text written => exact h.step_text hstep
  | data written => exact h.step_data hstep
  | aside =>
    cases hstep
    exact h.keep rfl rfl not_false rfl

variable {err : XmlError}

theorem Builder.attach_ne_error (n : Node) (hne : b.opened ≠ []) : b.attach n ≠ .error err :=
  fun ha => hne (attach_eq_error_iff.1 ha).1

theorem Builder.Holds.step_empty_eq_error_iff (h : b.Holds front) {name : String}
    {attributes : List (String × String)} : b.step (.empty name attributes) = .error err ↔
      Offends front (.empty name attributes) err := by
  rw [Builder.step, attach_eq_error_iff, ← h.depth_eq_zero_iff, h.root]
  constructor
  · rintro ⟨hd, hroot, rfl⟩
    exact .root hd hroot
  · rintro (_ | ⟨hd, hroot⟩)
    exact ⟨hd, hroot, rfl⟩

theorem Builder.Holds.step_finish_eq_error_iff (h : b.Holds front) :
    b.step .finish = .error err ↔ Offends front .finish err := by
  have hopened := h.depth_eq_zero_iff
  obtain ⟨declaration, opened, root⟩ := b
  cases opened with
  | nil =>
    have hd : Xml.depth front = 0 := hopened.2 rfl
    constructor
    · intro hstep
      cases hstep
      exact .closing hd
    · rintro (_ | ⟨hc, -⟩)
      · rfl
      · cases hd.symm.trans hc
  | cons top rest =>
    refine attach_eq_error_iff.trans ?_
    constructor
    · rintro ⟨hrest, hroot, rfl⟩
      exact .root (h.depth_eq_one_iff.2 hrest) (h.root.1 hroot)
    · rintro (hd | ⟨hc, hroot⟩)
      · cases hopened.1 hd
      · exact ⟨h.depth_eq_one_iff.1 hc, h.root.2 hroot, rfl⟩

theorem Builder.step_data_ne_error {written : String} : b.step (.data written) ≠ .error err := by
  rw [Builder.step]
  split
  · nofun
  · rename_i hne
    exact attach_ne_error _ (mt List.isEmpty_iff.2 hne)

theorem Builder.Holds.step_text_eq_error_iff (h : b.Holds front) {written : String} :
    b.step (.text written) = .error err ↔ Offends front (.text written) err := by
  have hopened := h.depth_eq_zero_iff
  rw [Builder.step]
  by_cases hempty : b.opened = []
  · rw [if_pos (List.isEmpty_iff.2 hempty)]
    refine iff_of_false nofun ?_
    rintro (_ | ⟨hc, -⟩ | ⟨hd, -⟩)
    · exact hc
    · exact hd (hopened.2 hempty)
  · rw [if_neg (mt List.isEmpty_iff.1 hempty)]
    cases hs : unescape? written.toList with
    | none =>
      constructor
      · intro hstep
        cases hstep
        exact .reference (mt hopened.1 hempty) hs
      · rintro (_ | ⟨hc, -⟩ | _)
        · exact hc.elim
        · rfl
    | some s =>
      refine iff_of_false (attach_ne_error _ hempty) ?_
      rintro (_ | ⟨hc, -⟩ | ⟨-, hnone⟩)
      · exact hc
      · cases hs.symm.trans hnone

/-- A builder refuses exactly the events that cannot stand after those before. -/
theorem Builder.Holds.step_eq_error_iff (h : b.Holds front) :
    b.step e = .error err ↔ Offends front e err := by
  cases e with
  | declaration | start | aside =>
    refine iff_of_false nofun ?_
    rintro (_ | ⟨hc, -⟩)
    exact hc
  | empty name attributes => exact h.step_empty_eq_error_iff
  | finish => exact h.step_finish_eq_error_iff
  | data written =>
    refine iff_of_false step_data_ne_error ?_
    rintro (_ | ⟨hc, -⟩)
    exact hc
  | text written => exact h.step_text_eq_error_iff

end Step

/-! ## Runs -/

/-- What a builder makes of events. -/
def Builder.run (events : List Event) : Except XmlError Builder :=
  events.foldlM Builder.step .initial

theorem run_concat (events : List Event) (e : Event) :
    Builder.run (events ++ [e]) = Builder.run events >>= fun b => b.step e := by
  rw [Builder.run, List.foldlM_append]
  exact bind_congr fun b => bind_pure (b.step e)

theorem holds_of_run {events : List Event} {b : Builder} (h : Builder.run events = .ok b) :
    b.Holds events := by
  induction events using List.reverseRecOn generalizing b with
  | nil =>
    cases h
    exact Builder.holds_initial
  | append_singleton events e ih =>
    rw [run_concat] at h
    obtain ⟨b₀, hrun, hstep⟩ := Except.bind_eq_ok.1 h
    exact (ih hrun).step hstep

theorem acceptable_concat {events : List Event} {e : Event} :
    Acceptable (events ++ [e]) ↔ Acceptable events ∧ ∀ err, ¬Offends events e err := by
  rw [Acceptable, somewhere_concat, not_or, not_exists, Acceptable]

/-- A run goes through exactly if each event can stand where it does. -/
theorem exists_run_iff {events : List Event} :
    (∃ b, Builder.run events = .ok b) ↔ Acceptable events := by
  induction events using List.reverseRecOn with
  | nil =>
    refine iff_of_true ⟨_, rfl⟩ ?_
    rintro ⟨front, e, back, h, -⟩
    cases front <;> cases h
  | append_singleton events e ih =>
    rw [acceptable_concat, ← ih, run_concat]
    constructor
    · rintro ⟨b, h⟩
      obtain ⟨b₀, hrun, hstep⟩ := Except.bind_eq_ok.1 h
      refine ⟨⟨b₀, hrun⟩, fun err ho => ?_⟩
      rw [← (holds_of_run hrun).step_eq_error_iff, hstep] at ho
      cases ho
    · rintro ⟨⟨b₀, hrun⟩, ho⟩
      cases hstep : b₀.step e with
      | ok b => exact ⟨b, Except.bind_eq_ok.2 ⟨b₀, hrun, hstep⟩⟩
      | error err => exact absurd ((holds_of_run hrun).step_eq_error_iff.1 hstep) (ho err)

/-- A run fails with the error of the first event that cannot stand where it does. -/
theorem run_eq_error_iff {events : List Event} {err : XmlError} :
    Builder.run events = .error err ↔ FirstOffence events err := by
  induction events using List.reverseRecOn with
  | nil =>
    refine iff_of_false nofun ?_
    rintro ⟨front, e, back, h, -⟩
    cases front <;> cases h
  | append_singleton events e ih =>
    have hconcat : FirstOffence (events ++ [e]) err ↔
        FirstOffence events err ∨ Acceptable events ∧ Offends events e err := somewhere_concat
    rw [run_concat, Except.bind_eq_error, ih, hconcat, ← exists_run_iff, ← exists_and_right]
    refine or_congr_right (exists_congr fun b => and_congr_right fun hrun => ?_)
    exact (holds_of_run hrun).step_eq_error_iff

theorem ofEvents_eq (events : List Event) :
    Document.ofEvents events = Builder.run events >>= Builder.finish :=
  rfl

theorem finish_eq_ok_iff {b : Builder} {d : Document} :
    b.finish = .ok d ↔ b.opened = [] ∧ b.root = some d.root ∧ b.declaration = d.declaration := by
  obtain ⟨declaration, opened, root⟩ := b
  obtain ⟨declaration', root'⟩ := d
  cases opened <;> cases root <;> simp [Builder.finish, and_comm]

theorem finish_eq_error_iff {b : Builder} {err : XmlError} :
    b.finish = .error err ↔
      b.opened ≠ [] ∧ err = .unclosedElement ∨
        b.opened = [] ∧ b.root = none ∧ err = .noRoot := by
  obtain ⟨declaration, opened, root⟩ := b
  cases opened <;> cases root <;> simp [Builder.finish, eq_comm]

section Finish

variable {b : Builder} {events : List Event} {n : Node}

theorem Builder.Holds.pieces_root (h : b.Holds events) (hopened : b.opened = [])
    (hroot : b.root = some n) : n.pieces = content 0 events := by
  rw [← h.pieces, Builder.pieces, hopened, hroot]
  exact (List.append_nil _).symm

theorem Builder.Holds.nested (h : b.Holds events) (hopened : b.opened = [])
    (hroot : b.root = some n) : ∃ p : DyckWord, Xml.brackets events = p.nest.toList := by
  obtain ⟨name, attributes, children, rfl⟩ := h.element n hroot
  obtain ⟨p, hp⟩ := Node.exists_nest_pieces name attributes children
  rw [h.pieces_root hopened hroot, flatMap_brackets_content] at hp
  exact ⟨p, hp⟩

theorem nest_toList_ne_nil (p : DyckWord) : p.nest.toList ≠ [] :=
  DyckWord.toList_ne_nil.2 DyckWord.nest_ne_zero

/-- Nothing is open and nothing is complete exactly if there were no elements. -/
theorem Builder.Holds.rootless_iff (h : b.Holds events) :
    b.opened = [] ∧ b.root = none ↔ Xml.brackets events = [] := by
  constructor
  · rintro ⟨hopened, hroot⟩
    have hpieces : b.pieces = [] := by
      rw [Builder.pieces, hopened, hroot]
      rfl
    rw [← flatMap_brackets_content 0, ← h.pieces, hpieces]
    rfl
  · intro hbrackets
    have hopened : b.opened = [] := by
      rw [← h.depth_eq_zero_iff, Xml.depth, hbrackets]
      rfl
    refine ⟨hopened, ?_⟩
    cases hroot : b.root with
    | none => rfl
    | some n =>
      obtain ⟨p, hp⟩ := h.nested hopened hroot
      exact absurd (hp.symm.trans hbrackets) (nest_toList_ne_nil p)

end Finish

/-! ## Nested brackets -/

section Nested

variable {p : DyckWord} {events front back : List Event}

theorem depth_nonneg (h : brackets (front ++ back) = p.toList) : 0 ≤ depth front := by
  have hle := p.count_D_le_count_U (brackets front).length
  rw [← h, brackets_append, List.take_left] at hle
  rw [depth]
  omega

theorem depth_pos (h : brackets (front ++ back) = p.nest.toList) (hfront : brackets front ≠ [])
    (hback : brackets back ≠ []) : 0 < depth front := by
  have hlength : (brackets front).length < p.nest.toList.length := by
    rw [← h, brackets_append, List.length_append]
    exact Nat.lt_add_of_pos_right (List.length_pos_iff.2 hback)
  have hlt := DyckWord.IsNested.nest.2 (List.length_pos_iff.2 hfront) hlength
  rw [← h, brackets_append, List.take_left] at hlt
  rw [depth]
  omega

theorem Completes.depth_concat {e : Event} (h : Completes front e) :
    depth (front ++ [e]) = 0 := by
  rw [Xml.depth_concat]
  cases e with
  | finish =>
    rw [show depth front = 1 from h]
    rfl
  | empty =>
    rw [show depth front = 0 from h]
    rfl
  | _ => exact h.elim

theorem Completes.brackets_ne_nil {e : Event} (h : Completes front e) : e.brackets ≠ [] := by
  cases e with
  | finish | empty => exact List.cons_ne_nil _ _
  | _ => exact h.elim

theorem brackets_concat_ne_nil {e : Event} (h : e.brackets ≠ []) :
    brackets (front ++ [e]) ≠ [] := by
  rw [brackets_append, brackets, brackets, List.flatMap_singleton]
  exact List.append_ne_nil_of_right_ne_nil _ h

/-- In events that make one nested pair of brackets each can stand where it does. -/
theorem acceptable_of_nested (h : brackets events = p.nest.toList) (htexts : TextsRead events) :
    Acceptable events := by
  rintro ⟨front, e, back, rfl, err, ho⟩
  cases ho with
  | closing hd =>
    rw [List.append_cons] at h
    have hnonneg := depth_nonneg h
    rw [depth_concat, hd] at hnonneg
    cases hnonneg
  | root hc hroot =>
    -- the outermost element is complete before this event
    obtain ⟨front', e', back', rfl, hc'⟩ := hroot
    have hsplit : front' ++ e' :: back' ++ e :: back =
        (front' ++ [e']) ++ (back' ++ [e] ++ back) := by simp
    rw [hsplit] at h
    have hpos := depth_pos h (brackets_concat_ne_nil hc'.brackets_ne_nil) ?_
    · rw [hc'.depth_concat] at hpos
      exact Int.lt_irrefl 0 hpos
    · rw [brackets_append]
      exact List.append_ne_nil_of_left_ne_nil (brackets_concat_ne_nil hc.brackets_ne_nil) _
  | reference hd hnone =>
    obtain hzero | ⟨s, hs⟩ := htexts front _ back rfl
    · exact hd hzero
    · cases hs.symm.trans hnone

theorem textsRead_of_acceptable (h : Acceptable events) : TextsRead events := by
  intro front written back hsplit
  rw [or_iff_not_imp_left]
  intro hd
  cases hs : unescape? written.toList with
  | some s => exact ⟨s, rfl⟩
  | none => exact absurd ⟨front, _, back, hsplit, _, .reference hd hs⟩ h

theorem textsRead_of_forall
    (h : ∀ written, Event.text written ∈ events → ∃ s, unescape? written.toList = some s) :
    TextsRead events := by
  rintro front written back rfl
  exact .inr (h written List.mem_append_cons_self)

theorem depth_nest (h : brackets events = p.nest.toList) : depth events = 0 := by
  rw [depth, h, p.nest.count_U_eq_count_D, Int.sub_self]

end Nested

theorem exists_ofEvents_iff {events : List Event} :
    (∃ d, Document.ofEvents events = .ok d) ↔
      (∃ p : DyckWord, brackets events = p.nest.toList) ∧ TextsRead events := by
  constructor
  · rintro ⟨d, hd⟩
    obtain ⟨b, hrun, hfinish⟩ := Except.bind_eq_ok.1 hd
    obtain ⟨hopened, hroot, -⟩ := finish_eq_ok_iff.1 hfinish
    exact ⟨(holds_of_run hrun).nested hopened hroot,
      textsRead_of_acceptable (exists_run_iff.1 ⟨b, hrun⟩)⟩
  · rintro ⟨⟨p, hp⟩, htexts⟩
    obtain ⟨b, hrun⟩ := exists_run_iff.2 (acceptable_of_nested hp htexts)
    have hb := holds_of_run hrun
    have hopened := hb.depth_eq_zero_iff.1 (depth_nest hp)
    cases hroot : b.root with
    | none =>
      have hnil := hb.rootless_iff.1 ⟨hopened, hroot⟩
      exact absurd (hp.symm.trans hnil) (nest_toList_ne_nil p)
    | some n =>
      refine ⟨⟨b.declaration, n⟩, Except.bind_eq_ok.2 ⟨b, hrun, ?_⟩⟩
      exact finish_eq_ok_iff.2 ⟨hopened, hroot, rfl⟩

theorem pieces_of_ofEvents {events : List Event} {d : Document}
    (h : Document.ofEvents events = .ok d) :
    d.root.pieces = content 0 events ∧ d.declaration = lastDeclaration? events := by
  obtain ⟨b, hrun, hfinish⟩ := Except.bind_eq_ok.1 h
  obtain ⟨hopened, hroot, hdeclaration⟩ := finish_eq_ok_iff.1 hfinish
  have hb := holds_of_run hrun
  exact ⟨hb.pieces_root hopened hroot, hdeclaration ▸ hb.declaration⟩

theorem ofEvents_eq_error_iff {events : List Event} {err : XmlError} :
    Document.ofEvents events = .error err ↔
      FirstOffence events err ∨
        Acceptable events ∧
          (depth events ≠ 0 ∧ err = .unclosedElement ∨
            brackets events = [] ∧ err = .noRoot) := by
  rw [ofEvents_eq, Except.bind_eq_error, run_eq_error_iff, ← exists_run_iff, ← exists_and_right]
  refine or_congr_right (exists_congr fun b => and_congr_right fun hrun => ?_)
  have hb := holds_of_run hrun
  rw [finish_eq_error_iff, ← and_assoc, hb.rootless_iff, Ne, Ne, hb.depth_eq_zero_iff]

theorem parse_of_ofText {text : String} {events : List Event}
    (h : Event.ofText text = (events, none)) :
    Document.parse text = Document.ofEvents events := by
  rw [Document.parse, h]
  rfl

/-- A sequence of events makes a document exactly if its elements make one nested pair of brackets
and the texts in them can be read. The tree is then, from its front to its end, what the events in
elements say, and the declaration is the last one. Else the error is that of the first event that
cannot stand where it does; if there is none, an element is not closed, or there is no element.
A text is the document of its events. -/
theorem ofEvents_balanced (events : List Event) :
    ((∃ d, Document.ofEvents events = .ok d) ↔
      (∃ p : DyckWord, brackets events = p.nest.toList) ∧ TextsRead events) ∧
    (∀ d, Document.ofEvents events = .ok d →
      d.root.pieces = content 0 events ∧ d.declaration = lastDeclaration? events) ∧
    (∀ err, Document.ofEvents events = .error err ↔
      FirstOffence events err ∨
        Acceptable events ∧
          (depth events ≠ 0 ∧ err = .unclosedElement ∨ brackets events = [] ∧ err = .noRoot)) ∧
    (∀ text, Event.ofText text = (events, none) →
      Document.parse text = Document.ofEvents events) ∧
    [XmlError.unexpectedClosing, .multipleRoots, .unclosedElement, .noRoot].map
        XmlError.message =
      ["unexpected closing tag", "multiple root elements", "unclosed element",
        "no root element"] :=
  ⟨exists_ofEvents_iff, fun _ => pieces_of_ofEvents, fun _ => ofEvents_eq_error_iff,
    fun _ => parse_of_ofText, rfl⟩

def breakEvents : List Event :=
  [.start "p" [("k", "v")], .text "x&amp;", .empty "br" [], .aside, .finish, .text "\n"]

theorem breakEvents_ofEvents :
    Event.ofText "<p k=\"v\">x&amp;<br/><!----></p>\n" = (breakEvents, none) ∧
    (∃ p : DyckWord, brackets breakEvents = p.nest.toList) ∧ TextsRead breakEvents ∧
    ∃ d, Document.parse "<p k=\"v\">x&amp;<br/><!----></p>\n" = .ok d ∧
      Document.ofEvents breakEvents = .ok d ∧
      d.root.pieces =
        [.opening "p" [("k", "v")], .text "x&", .opening "br" [], .closing, .closing] ∧
      d.declaration = none := by
  have htext : Event.ofText "<p k=\"v\">x&amp;<br/><!----></p>\n" = (breakEvents, none) := by
    decide +kernel
  have hnested : ∃ p : DyckWord, brackets breakEvents = p.nest.toList :=
    ⟨DyckWord.nest 0, rfl⟩
  have hread : TextsRead breakEvents := by
    refine textsRead_of_forall fun written hmem => ?_
    have hwritten : written = "x&amp;" ∨ written = "\n" := by simpa [breakEvents] using hmem
    rcases hwritten with rfl | rfl
    · exact ⟨"x&".toList, by decide +kernel⟩
    · exact ⟨"\n".toList, by decide +kernel⟩
  have hcontent : content 0 breakEvents =
      [.opening "p" [("k", "v")], .text "x&", .opening "br" [], .closing, .closing] := by
    decide +kernel
  obtain ⟨hok, htree, -, hparse, -⟩ := ofEvents_balanced breakEvents
  obtain ⟨d, hd⟩ := hok.2 ⟨hnested, hread⟩
  obtain ⟨hpieces, hdeclaration⟩ := htree d hd
  exact ⟨htext, hnested, hread, d, (hparse _ htext).trans hd, hd, hpieces.trans hcontent,
    hdeclaration⟩

end Xml

end FormLetter
