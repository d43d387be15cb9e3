import FormLetter.Proofs.Text.Occurrence
import FormLetter.Proofs.Tree.Normal
import FormLetter.Proofs.Xml.Tag
import FormLetter.Xml.Merge

/-!
# Documents without braces

What is written for a document without braces has none (`Document.noBraces_write`), and in a text
without braces no markup is taken out (`mergeTags_eq_self`).
-/

namespace FormLetter.Xml

open FormLetter.Text

def NoBraces (cs : List Char) : Prop := ∀ c ∈ cs, isBraceless c = true

instance (cs : List Char) : Decidable (NoBraces cs) :=
  decidable_of_iff (cs.all isBraceless = true) List.all_eq_true

theorem noBraces_append {cs ds : List Char} : NoBraces (cs ++ ds) ↔ NoBraces cs ∧ NoBraces ds :=
  List.forall_mem_append

theorem noBraces_cons {c : Char} {cs : List Char} :
    NoBraces (c :: cs) ↔ isBraceless c = true ∧ NoBraces cs :=
  List.forall_mem_cons

theorem noBraces_flatMap {α : Type} {f : α → List Char} {xs : List α} :
    NoBraces (xs.flatMap f) ↔ ∀ x ∈ xs, NoBraces (f x) := by
  simp only [NoBraces, List.mem_flatMap, forall_exists_index, and_imp]
  exact ⟨fun h x hx c hc => h c x hx hc, fun h c x hx hc => h x hx c hc⟩

theorem mergeTags_eq_self {text : String} (h : NoBraces text.toList) : mergeTags text = text := by
  have hfirst : bracePattern.first? text.toList = none := by
    generalize text.toList = cs at h
    induction cs with
    | nil => rfl
    | cons c cs ih =>
      obtain ⟨hc, hcs⟩ := noBraces_cons.1 h
      have hread : readBraces (c :: cs) = none := by
        unfold readBraces
        split
        · rename_i heq
          cases heq
          cases hc
        · rfl
      rw [Pattern.first?_of_read_eq_none (p := bracePattern) hread, ih hcs]
      rfl
  rw [mergeTags, Pattern.replace, Pattern.split_of_first?_eq_none hfirst]
  simp

def IsBracelessTag (name : String) (attributes : List (String × String)) : Prop :=
  NoBraces name.toList ∧ ∀ a ∈ attributes, NoBraces a.1.toList ∧ NoBraces a.2.toList

def Braceless (n : Node) : Prop := n.Everywhere IsBracelessTag fun s => NoBraces s.toList

def Declaration.Braceless (d : Declaration) : Prop := ∀ s ∈ d.fields, NoBraces s.toList

theorem noBraces_escape {cs : List Char} (h : NoBraces cs) : NoBraces (escape cs) := by
  refine noBraces_flatMap.2 fun c hc => ?_
  rcases escapeChar_cases c with ⟨he, -⟩ | ⟨name, hr, he⟩
  · rw [he]
    exact noBraces_cons.2 ⟨h c hc, List.forall_mem_nil _⟩
  · have hall : ∀ r ∈ references, NoBraces ('&' :: (r.1 ++ [';'])) := by decide
    rw [he]
    exact hall _ hr

theorem Attribute.noBraces_write {a : Attribute} (hname : NoBraces a.name)
    (hvalue : NoBraces a.value) : NoBraces a.write := by
  rw [write]
  simp only [noBraces_append, noBraces_cons]
  exact ⟨⟨⟨⟨by decide, hname⟩, by decide⟩, hvalue⟩, by decide, by decide⟩

mutual

theorem noBraces_writeNode : (n : Node) → Braceless n → NoBraces (writeNode n)
  | .text _, h => noBraces_escape h
  | .element name attributes children, ⟨⟨hname, ha⟩, hc⟩ => by
    have hattributes : NoBraces (attributes.flatMap writeAttribute) := by
      rw [flatMap_writeAttribute]
      refine noBraces_flatMap.2 (List.forall_mem_map.2 fun a hm => ?_)
      exact Attribute.noBraces_write (ha a hm).1 (noBraces_escape (ha a hm).2)
    by_cases hne : children = []
    · rw [hne, writeNode_nil]
      simp only [noBraces_append, noBraces_cons]
      exact ⟨by decide, ⟨hname, hattributes⟩, by decide⟩
    · rw [writeNode_of_ne_nil hne]
      simp only [noBraces_append, noBraces_cons]
      exact ⟨by decide, ⟨hname, hattributes⟩, by decide,
        ⟨⟨noBraces_writeNodes children hc, by decide⟩, hname⟩, by decide, by decide⟩

theorem noBraces_writeNodes : (ns : List Node) →
    Node.EverywhereAll IsBracelessTag (fun s => NoBraces s.toList) ns → NoBraces (writeNodes ns)
  | [], _ => List.forall_mem_nil _
  | n :: ns, h => by
    rw [writeNodes]
    exact noBraces_append.2 ⟨noBraces_writeNode n h.1, noBraces_writeNodes ns h.2⟩

end

theorem Declaration.noBraces_write {d : Declaration} (h : d.Braceless) : NoBraces d.write := by
  have hattributes : NoBraces (d.attributes.flatMap Attribute.write) := by
    refine noBraces_flatMap.2 fun a ha => ?_
    obtain ⟨hname, s, hs, hvalue⟩ := exists_of_mem_attributes ha
    have hall : ∀ name ∈ attributeNames, NoBraces name := by decide
    exact Attribute.noBraces_write (hall _ hname) (hvalue ▸ h s hs)
  rw [write_eq]
  simp only [noBraces_append]
  exact ⟨⟨by decide, hattributes⟩, by decide⟩

def Document.Braceless (d : Document) : Prop :=
  (∀ declaration ∈ d.declaration, declaration.Braceless) ∧ Xml.Braceless d.root

theorem Document.noBraces_write {d : Document} (h : d.Braceless) : NoBraces d.write.toList := by
  rw [write, String.toList_ofList]
  refine noBraces_append.2 ⟨?_, noBraces_writeNode d.root h.2⟩
  cases hd : d.declaration with
  | none => exact List.forall_mem_nil _
  | some declaration => exact Declaration.noBraces_write (h.1 declaration hd)

end FormLetter.Xml
