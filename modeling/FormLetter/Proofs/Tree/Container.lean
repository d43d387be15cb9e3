import FormLetter.Proofs.Tree.Place

/-!
# Text containers

Where a text container holds nothing but texts, no loop stands in one: the first node of a loop is
an element (`ne_of_holdsOnlyTexts`). Unrolling keeps it so (`Site.holdsOnlyTexts`).
-/

namespace FormLetter

open FormLetter.Loop

namespace Node

mutual

/-- Whether the elements of a name, those in fragments aside, have texts only for children. -/
def holdsOnlyTexts (container : String) : Node → Bool
  | .text _ => true
  | .element name _ children =>
    (name != container || children.all (·.name?.isNone)) && allHoldOnlyTexts container children

def allHoldOnlyTexts (container : String) : List Node → Bool
  | [] => true
  | n :: ns => (n.isFragment || n.holdsOnlyTexts container) && allHoldOnlyTexts container ns

end

theorem allHoldOnlyTexts_append (container : String) (ns ms : List Node) :
    allHoldOnlyTexts container (ns ++ ms) =
      (allHoldOnlyTexts container ns && allHoldOnlyTexts container ms) := by
  induction ns with
  | nil => rfl
  | cons n ns ih => rw [List.cons_append, allHoldOnlyTexts, allHoldOnlyTexts, ih, Bool.and_assoc]

end Node

namespace Place

variable {container : String} {place : Place} {ns ms : List Node}

theorem holdsOnlyTexts_of_fill (hv : place.Visible)
    (h : (place.fill ns).holdsOnlyTexts container = true) :
    (place.name ≠ container ∨ ns.all (·.name?.isNone) = true) ∧
      Node.allHoldOnlyTexts container ns = true := by
  induction place generalizing ns with
  | root name attributes => simpa [fill, Node.holdsOnlyTexts, Place.name] using h
  | inside outer before name attributes after ih =>
    have h := (ih hv.1 h).2
    rw [Node.allHoldOnlyTexts_append, Node.allHoldOnlyTexts, Node.isFragment_eq_false hv.2] at h
    simp only [Node.holdsOnlyTexts, Bool.and_eq_true, Bool.or_eq_true, Bool.false_or,
      bne_iff_ne] at h
    exact h.2.1

/-- Other children for an element that is no text container. -/
theorem holdsOnlyTexts_fill (hv : place.Visible) (hn : place.name ≠ container)
    (h : (place.fill ns).holdsOnlyTexts container = true)
    (hm : Node.allHoldOnlyTexts container ms = true) :
    (place.fill ms).holdsOnlyTexts container = true := by
  induction place generalizing ns ms with
  | root name attributes =>
    have hn : name ≠ container := hn
    simp [fill, Node.holdsOnlyTexts, hn, hm]
  | inside outer before name attributes after ih =>
    have hn : name ≠ container := hn
    obtain ⟨htexts, hall⟩ := holdsOnlyTexts_of_fill hv.1 h
    have ho : outer.name ≠ container := by
      refine htexts.resolve_right fun hall => ?_
      simp [Node.name?] at hall
    refine ih hv.1 ho h ?_
    rw [Node.allHoldOnlyTexts_append, Node.allHoldOnlyTexts] at hall ⊢
    simp only [Node.isFragment_eq_false hv.2, Node.holdsOnlyTexts, Bool.and_eq_true,
      Bool.false_or] at hall ⊢
    exact ⟨hall.1, ⟨by simp [hn], hm⟩, hall.2.2⟩

theorem ne_of_holdsOnlyTexts {container : Option String} {before following : List Node}
    {first : Node} (hv : place.Visible) (hfirst : first.name?.isSome = true)
    (h : ∀ c, container = some c →
      (place.fill (before ++ first :: following)).holdsOnlyTexts c = true) :
    container ≠ some place.name := by
  intro hc
  rcases (holdsOnlyTexts_of_fill hv (h _ hc)).1 with hn | hall
  · exact hn rfl
  · have hnone := List.all_eq_true.1 hall first (by simp)
    rw [← Option.not_isSome, hfirst] at hnone
    cases hnone

section Loop

variable {before body after : List Node} {first last : Node}

theorem holdsOnlyTexts_body (hc : Node.fragmentName ≠ container) (hv : place.Visible)
    (h : (place.fill (before ++ first :: (body ++ last :: after))).holdsOnlyTexts container =
      true) :
    (Node.fragment body).holdsOnlyTexts container = true := by
  have hall := (holdsOnlyTexts_of_fill hv h).2
  rw [← List.singleton_append, Node.allHoldOnlyTexts_append, Node.allHoldOnlyTexts_append,
    Node.allHoldOnlyTexts_append] at hall
  simp only [Bool.and_eq_true] at hall
  simp [Node.fragment, Node.holdsOnlyTexts, hc, hall]

theorem holdsOnlyTexts_replace (hv : place.Visible) (hn : place.name ≠ container)
    (h : (place.fill (before ++ first :: (body ++ last :: after))).holdsOnlyTexts container = true)
    (output : List Node) :
    (place.fill (before ++ .fragment output :: after)).holdsOnlyTexts container = true := by
  have hall := (holdsOnlyTexts_of_fill hv h).2
  refine holdsOnlyTexts_fill hv hn h ?_
  rw [Node.allHoldOnlyTexts_append, Node.allHoldOnlyTexts, Node.allHoldOnlyTexts_append,
    Node.allHoldOnlyTexts] at hall
  simp only [Bool.and_eq_true] at hall
  rw [Node.allHoldOnlyTexts_append, Node.allHoldOnlyTexts, Node.isFragment_fragment, hall.1,
    hall.2.2.2.2]
  rfl

end Loop

end Place

/-- Text containers hold nothing but texts in a loop body, and in a tree with output in the place of
a loop, if they do in the tree. -/
theorem Loop.Site.holdsOnlyTexts {layout : Layout} {root : Node} {site : Site}
    (hc : layout.textContainer ≠ some Node.fragmentName)
    (h : ∀ c, layout.textContainer = some c → root.holdsOnlyTexts c = true)
    (hs : Site.find? layout root = .ok (some site)) :
    (∀ c, layout.textContainer = some c → (Node.fragment site.body).holdsOnlyTexts c = true) ∧
      ∀ output c, layout.textContainer = some c →
        (site.replace output root).holdsOnlyTexts c = true := by
  obtain ⟨place, before, first, last, after, hv, -, -, hfirst, -, -, hroot, -, hreplace⟩ :=
    Site.exists_place_of_find? hs
  rw [hroot] at h
  have hne := Place.ne_of_holdsOnlyTexts hv hfirst h
  refine ⟨fun c hcc => Place.holdsOnlyTexts_body (fun e => hc (by rw [hcc, e])) hv (h c hcc),
    fun output c hcc => ?_⟩
  rw [hreplace]
  exact Place.holdsOnlyTexts_replace hv (fun e => hne (by rw [hcc, e])) (h c hcc) output

end FormLetter
