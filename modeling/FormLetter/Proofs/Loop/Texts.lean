import FormLetter.Proofs.Tree.Place

/-!
# What unrolling leaves of the texts

A loop body is scanned for texts of its tree and no others, and so is the tree with finished output
in the place of a loop.
-/

namespace FormLetter

open FormLetter.Loop

namespace Node

/-- The contents of the texts that are scanned. -/
def strings (container : Option String) (n : Node) : List String :=
  (n.texts container).map (·.2)

def childStrings (container : Option String) (name : String) (ns : List Node) : List String :=
  (childTexts container name 0 ns).map (·.2)

theorem strings_text (container : Option String) (s : String) :
    (text s).strings container = if container.isNone then [s] else [] := by
  rw [strings, texts, textsUnder, isSelected_none]
  cases container <;> rfl

theorem childTexts_map_snd (container : Option String) (name : String) (index : Nat)
    (ns : List Node) :
    (childTexts container name index ns).map (·.2) = childStrings container name ns := by
  suffices h : ∀ i j, (childTexts container name i ns).map (·.2) =
      (childTexts container name j ns).map (·.2) from h index 0
  induction ns with
  | nil => intro i j; rfl
  | cons n ns ih =>
    intro i j
    rw [childTexts, childTexts, List.map_append, List.map_append, ih (i + 1) (j + 1)]
    split
    · rfl
    · simp only [List.map_map]
      rfl

theorem childStrings_append (container : Option String) (name : String) (ns ms : List Node) :
    childStrings container name (ns ++ ms) =
      childStrings container name ns ++ childStrings container name ms := by
  rw [childStrings, childTexts_append, List.map_append, childTexts_map_snd, childTexts_map_snd]

theorem childStrings_cons (container : Option String) (name : String) (n : Node)
    (ns : List Node) : childStrings container name (n :: ns) =
      (if n.isFragment then [] else (textsUnder container (some name) n).map (·.2)) ++
        childStrings container name ns := by
  rw [childStrings, childTexts, List.map_append, childTexts_map_snd]
  split
  · rfl
  · simp only [List.map_map]
    rfl

/-- Nodes among the children of a fragment have no more scanned texts than elsewhere. -/
theorem childStrings_fragment_subset {container : Option String}
    (hc : container ≠ some fragmentName) (name : String) (ns : List Node) :
    childStrings container fragmentName ns ⊆ childStrings container name ns := by
  induction ns with
  | nil => exact fun _ h => h
  | cons n ns ih =>
    rw [childStrings_cons, childStrings_cons]
    refine List.append_subset.2 ⟨fun s hs => List.mem_append_left _ ?_,
      fun s hs => List.mem_append_right _ (ih hs)⟩
    cases n with
    | element name' attributes children => exact hs
    | text t =>
      simp only [isFragment, isElement, name?, textsUnder, isSelected_of_ne hc] at hs ⊢
      cases container with
      | none => exact hs
      | some c => simp at hs

end Node

theorem Place.strings_fill {place : Place} (hv : place.Visible) (container : Option String)
    (ns : List Node) : (place.fill ns).strings container =
      (place.leading container).map (·.2) ++ Node.childStrings container place.name ns ++
        (place.trailing container).map (·.2) := by
  rw [Node.strings, Place.texts_fill hv, List.map_append, List.map_append, List.map_map]
  rfl

namespace Loop.Site.Of

variable {site : Site} {root : Node} {container : Option String}

theorem strings_body_subset (h : site.Of root) (hc : container ≠ some Node.fragmentName) :
    (Node.fragment site.body).strings container ⊆ root.strings container := by
  obtain ⟨place, before, first, last, after, hv, -, -, -, -, hroot, -⟩ := h.exists_place
  intro s hs
  have hb := Node.childStrings_fragment_subset hc place.name site.body hs
  rw [hroot, Place.strings_fill hv, ← List.singleton_append, Node.childStrings_append,
    Node.childStrings_append, Node.childStrings_append]
  simp only [List.mem_append]
  exact .inl (.inr (.inr (.inr (.inl hb))))

theorem strings_replace_subset (h : site.Of root) (output : List Node) :
    (site.replace output root).strings container ⊆ root.strings container := by
  obtain ⟨place, before, first, last, after, hv, -, -, -, -, hroot, hreplace⟩ := h.exists_place
  intro s hs
  rw [hreplace, Place.strings_fill hv, Node.childStrings_append, Node.childStrings_cons,
    if_pos (Node.isFragment_fragment output)] at hs
  rw [hroot, Place.strings_fill hv, Node.childStrings_append, Node.childStrings_cons,
    Node.childStrings_append, Node.childStrings_cons]
  simp only [List.mem_append, List.not_mem_nil, false_or] at hs ⊢
  rcases hs with (hl | hb | ha) | ht
  · exact .inl (.inl hl)
  · exact .inl (.inr (.inl hb))
  · exact .inl (.inr (.inr (.inr (.inr (.inr ha)))))
  · exact .inr ht

end Loop.Site.Of

end FormLetter
