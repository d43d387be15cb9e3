import FormLetter.Package.Basic
import FormLetter.Proofs.Xml.Merge
import FormLetter.Proofs.Xml.Rewriting
import FormLetter.Proofs.Xml.RoundTrip

/-!
# Saving and opening packages

A package whose body has no braces opens again as it was saved, up to the normal form of its tree
(`Savable.ofContent_saved`). So from the second saving on the entries stay as they are; the first
may leave a hollow element, which the second writes as an empty one (`round_trip`).
-/

namespace FormLetter.Package

open FormLetter.Archive FormLetter.Xml

def IsOpen (part : Content.Entry) : Prop :=
  match part.content with
  | .closed _ => False
  | _ => True

theorem openParts_of_isOpen {parts : List Content.Entry} (h : ∀ part ∈ parts, IsOpen part) :
    openParts parts = (parts, none) := by
  induction parts with
  | nil => rfl
  | cons part parts ih =>
    obtain ⟨hpart, hparts⟩ := List.forall_mem_cons.1 h
    rw [openParts, ih hparts]
    unfold IsOpen at hpart
    split
    · rename_i hclosed
      rw [hclosed] at hpart
      exact hpart.elim
    · rfl

/-- The parts other than the body. -/
def others (p : Package) : List Content.Entry := p.parts.filter (!isBody ·)

/-- The parts of a package as it is saved: the others in their order, and the body. -/
def saved (p : Package) : List Content.Entry := p.others ++ [p.bodyEntry]

variable {p : Package}

theorem toContent_of_isOpen (h : ∀ part ∈ p.parts, IsOpen part) :
    p.toContent = .ok (.archive p.saved) := by
  have hpassed : p.passedParts = (p.others, none) :=
    openParts_of_isOpen fun part hm => h part (List.mem_filter.1 hm).1
  rw [toContent, savedParts, hpassed]
  rfl

theorem isBody_bodyEntry (p : Package) : isBody p.bodyEntry = true := beq_self_eq_true _

theorem find?_saved (p : Package) : p.saved.find? isBody = some p.bodyEntry := by
  have hothers : p.others.find? isBody = none :=
    List.find?_eq_none.2 fun part hm => by simpa using (List.mem_filter.1 hm).2
  rw [saved, List.find?_append, hothers, Option.none_or,
    List.find?_cons_of_pos (isBody_bodyEntry p)]

theorem filter_saved (p : Package) : p.saved.filter (!isBody ·) = p.others := by
  rw [saved, others, List.filter_append, List.filter_filter]
  simp [isBody_bodyEntry]

theorem isOpen_saved (h : ∀ part ∈ p.parts, IsOpen part) : ∀ part ∈ p.saved, IsOpen part := by
  intro part hm
  rcases List.mem_append.1 hm with hm | hm
  · exact h part (List.mem_filter.1 hm).1
  · rw [List.mem_singleton.1 hm]
    trivial

theorem entries_of_ofContent {content : Content} (h : ofContent content = .ok p) :
    content.entries = .ok p.parts := by
  obtain ⟨parts, hparts, h⟩ := Except.bind_eq_ok.1 h
  have hp : p.parts = parts := by
    split at h
    · cases h
    · obtain ⟨text, -, h⟩ := Except.bind_eq_ok.1 h
      obtain ⟨body, -, h⟩ := Except.bind_eq_ok.1 h
      cases h
      rfl
  cases he : content.entries with
  | error e => rw [he] at hparts; cases hparts
  | ok entries =>
    rw [he] at hparts
    cases hparts
    rw [hp]

theorem text_ofText (s : String) : (Content.ofText s).text = .ok s := by
  have hread : String.fromUTF8? s.toUTF8 = some s := dif_pos s.isValidUTF8
  have hbytes : (Content.ofText s).toBytes = s.toUTF8 := by rw [Content.ofText, Content.toBytes]
  have htext : (Content.ofText s).text =
      (String.fromUTF8? (Content.ofText s).toBytes).elim (.error .notText) .ok := rfl
  rw [htext, hbytes, hread]
  rfl

theorem partText_bodyEntry (p : Package) : partText p.bodyEntry = .ok p.bodyText := by
  have hpart : partText p.bodyEntry =
      (Content.ofText p.bodyText).text.mapError (.io ("read " ++ bodyPart)) := rfl
  rw [hpart, text_ofText]
  rfl

/-- A package whose parts can all be passed on, and whose body reads back. -/
structure Savable (p : Package) : Prop where
  isOpen : ∀ part ∈ p.parts, IsOpen part
  writable : p.body.Writable
  braceless : p.body.Braceless

def reopened (p : Package) : Package :=
  ⟨p.saved, p.body.declaration, p.body.root.normalise⟩

/-- A saved package opens, with its tree in normal form. -/
theorem Savable.ofContent_saved (h : p.Savable) {file : Content}
    (hfile : file.entries = .ok p.saved) : ofContent file = .ok p.reopened := by
  have hbody : readBody p.bodyText = .ok p.reopened.body := by
    rw [readBody, bodyText, mergeTags_eq_self (Document.noBraces_write h.braceless),
      Document.parse_write h.writable]
    rfl
  rw [ofContent, hfile]
  change (Except.ok p.saved >>= _) = _
  simp only [bind, Except.bind, find?_saved, partText_bodyEntry, hbody]
  rfl

theorem Savable.reopened (h : p.Savable) : p.reopened.Savable where
  isOpen := isOpen_saved h.isOpen
  writable := by
    obtain ⟨hd, hroot, hw⟩ := h.writable
    exact ⟨hd, p.body.root.name?_normalise ▸ hroot,
      Node.everywhere_normalise (fun _ _ _ _ => trivial) _ hw⟩
  braceless := by
    obtain ⟨hd, hb⟩ := h.braceless
    refine ⟨hd, Node.everywhere_normalise (fun s t hs ht => ?_) _ hb⟩
    rw [String.toList_append]
    exact noBraces_append.2 ⟨hs, ht⟩

/-- Saved again, a package has its body rewritten in normal form, and the other parts as before. -/
theorem saved_reopened (p : Package) :
    p.reopened.saved = (p.withTree p.tree.normalise).saved := by
  rw [saved, others, Package.reopened, filter_saved]
  rfl

theorem saved_withTree_eq_iff {t u : Node} :
    (p.withTree t).saved = (p.withTree u).saved ↔ writeNode t = writeNode u := by
  have hentry : (p.withTree t).bodyEntry = (p.withTree u).bodyEntry ↔
      (p.withTree t).bodyText = (p.withTree u).bodyText := by
    simp only [bodyEntry, Entry.mk.injEq, Content.ofText, Content.bytes.injEq, true_and]
    exact String.toByteArray_inj
  have htext : (p.withTree t).bodyText = (p.withTree u).bodyText ↔ writeNode t = writeNode u := by
    simp only [bodyText, Document.write, withTree, String.ofList_inj, List.append_cancel_left_eq]
  have hothers : (p.withTree t).others = (p.withTree u).others := rfl
  rw [saved, saved, hothers, List.append_cancel_left_eq, List.cons.injEq, hentry, htext]
  exact and_iff_left rfl

/-- A package with a tree, saved, opened and saved again. -/
theorem Savable.reopens {t : Node} (h : (p.withTree t).Savable) {file : Content}
    (hfile : file.entries = .ok (p.withTree t).saved) :
    ∃ q, ofContent file = .ok q ∧ q.body = ⟨p.body.declaration, t.normalise⟩ ∧
      q.toContent = .ok (.archive (p.withTree t.normalise).saved) := by
  refine ⟨(p.withTree t).reopened, h.ofContent_saved hfile, rfl, ?_⟩
  rw [toContent_of_isOpen h.reopened.isOpen, saved_reopened]
  rfl

theorem Savable.normalise {t : Node} (h : (p.withTree t).Savable) :
    (p.withTree t.normalise).Savable :=
  ⟨h.isOpen, h.reopened.writable, h.reopened.braceless⟩

/-- A package whose tree is replaced is saved with its other parts as they were and its body last.
It opens again with the tree in normal form, and so it does however often it is saved and opened.
Saved again it has the same entries just if no element of the tree is hollow; else the body is
written anew, and after that the entries stay the same, too. -/
theorem round_trip {content : Content} {p : Package} (hp : ofContent content = .ok p) {t : Node}
    (h : (p.withTree t).Savable) :
    let first := (p.withTree t).saved
    let later := (p.withTree t.normalise).saved
    content.entries = .ok p.parts ∧
      (p.withTree t).toContent = .ok (.archive first) ∧
      (∀ file, file.entries = .ok first → ∃ q, ofContent file = .ok q ∧
        q.body = ⟨p.body.declaration, t.normalise⟩ ∧ q.toContent = .ok (.archive later)) ∧
      (∀ file, file.entries = .ok later → ∃ q, ofContent file = .ok q ∧
        q.body = ⟨p.body.declaration, t.normalise⟩ ∧ q.toContent = .ok (.archive later)) ∧
      (later = first ↔ ¬Hollow t) := by
  intro first later
  refine ⟨entries_of_ofContent hp, toContent_of_isOpen h.isOpen, fun file hfile => h.reopens hfile,
    fun file hfile => ?_, saved_withTree_eq_iff.trans writeNode_normalise_eq_iff⟩
  obtain ⟨q, hq, hbody, hsaved⟩ := h.normalise.reopens hfile
  rw [Node.normalise_normalise] at hbody hsaved
  exact ⟨q, hq, hbody, hsaved⟩

/-! ## A letter -/

/-- A package with a tag in its body. -/
def letter : Content :=
  .archive [⟨bodyPart, .deflated, .ofText "<w:p><w:t>{x}</w:t></w:p>"⟩,
    ⟨"word/styles.xml", .stored, .ofText "<w:styles/>"⟩]

/-- The tree of the letter with some texts in the place of the tag. -/
def letterTree (texts : List String) : Node :=
  .element "w:p" [] [.element "w:t" [] (texts.map .text)]

/-- The letter opens, and can be saved with texts without braces. -/
theorem exists_letter : ∃ p, ofContent letter = .ok p ∧
    ∀ texts, (∀ s ∈ texts, NoBraces s.toList) → (p.withTree (letterTree texts)).Savable := by
  have hok : (ofContent letter).toOption.map (·.body.declaration) = some none := by
    decide +kernel
  cases h : ofContent letter with
  | error e => rw [h] at hok; cases hok
  | ok p =>
    rw [h] at hok
    have hd : p.body.declaration = none := Option.some.inj hok
    have hparts := Except.ok.inj (entries_of_ofContent h)
    have hnone : ∀ d, d ∉ p.body.declaration := by simp [hd]
    have htags : ∀ name ∈ ["w:p", "w:t"], IsTag name [] ∧ IsBracelessTag name [] := by
      simp only [IsTag, AreAttributes, IsBracelessTag]
      decide
    refine ⟨p, rfl, fun texts htexts => ⟨fun part hm => ?_, ?_, ?_⟩⟩
    · rw [withTree, ← hparts] at hm
      simp only [List.mem_cons, List.not_mem_nil, or_false] at hm
      rcases hm with rfl | rfl <;> trivial
    · refine ⟨fun d hm => absurd hm (hnone d), rfl, (htags "w:p" (by simp)).1,
        ⟨(htags "w:t" (by simp)).1, ?_⟩, trivial⟩
      exact Node.everywhereAll_iff.2 (List.forall_mem_map.2 fun _ _ => trivial)
    · refine ⟨fun d hm => absurd hm (hnone d), (htags "w:p" (by simp)).2,
        ⟨(htags "w:t" (by simp)).2, ?_⟩, trivial⟩
      exact Node.everywhereAll_iff.2 (List.forall_mem_map.2 htexts)

/-- A letter with a name for the tag stays as it was saved. -/
theorem letter_round_trip : ∃ p, ofContent letter = .ok p ∧
    (p.withTree (letterTree ["Ann", "", " & Bob"])).Savable ∧
    (∀ file, file.entries = .ok (p.withTree (letterTree ["Ann", "", " & Bob"])).saved →
      ∃ q, ofContent file = .ok q ∧ q.body = ⟨p.body.declaration, letterTree ["Ann & Bob"]⟩) ∧
    (p.withTree (letterTree ["Ann & Bob"])).saved =
      (p.withTree (letterTree ["Ann", "", " & Bob"])).saved := by
  obtain ⟨p, hp, hsavable⟩ := exists_letter
  have h := hsavable ["Ann", "", " & Bob"] (by decide)
  have hhollow : ¬Hollow (letterTree ["Ann", "", " & Bob"]) := by
    simp [letterTree, Hollow, HollowAny]
  obtain ⟨-, -, hfirst, -, hsame⟩ := round_trip hp h
  refine ⟨p, hp, h, fun file hfile => ?_, hsame.2 hhollow⟩
  obtain ⟨q, hq, hbody, -⟩ := hfirst file hfile
  exact ⟨q, hq, hbody⟩

/-- A letter with an empty text for the tag is saved in another way the second time. -/
theorem letter_resaved : ∃ p, ofContent letter = .ok p ∧
    (p.withTree (letterTree [""])).Savable ∧
    ∃ q, ofContent (.archive (p.withTree (letterTree [""])).saved) = .ok q ∧
      q.toContent ≠ .ok (.archive (p.withTree (letterTree [""])).saved) := by
  obtain ⟨p, hp, hsavable⟩ := exists_letter
  have h := hsavable [""] (by decide)
  have hfile : (Content.archive (p.withTree (letterTree [""])).saved).entries =
      .ok (p.withTree (letterTree [""])).saved := rfl
  obtain ⟨q, hq, -, hagain⟩ := h.reopens hfile
  refine ⟨p, hp, h, q, hq, fun hsame => ?_⟩
  rw [hagain, Except.ok.injEq, Content.archive.injEq, saved_withTree_eq_iff,
    writeNode_normalise_eq_iff] at hsame
  exact hsame (by simp [letterTree, Hollow, HollowAny])

end FormLetter.Package
