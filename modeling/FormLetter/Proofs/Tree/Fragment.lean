import FormLetter.Proofs.Loop.Texts
import FormLetter.Proofs.Tree.Edit

/-!
# Finished output in a tree

`fragmentsAmong` lists the fragments of a tree, each with the name of the element that its children
will stand in. The texts of a flat tree are those outside its fragments and those in them
(`mem_childStrings_flattenChildren`).
-/

namespace FormLetter

open FormLetter.Loop

namespace Node

mutual

/-- Whether an element of the tree, the root included, has the name of finished output. -/
def hasFragment : Node → Bool
  | .text _ => false
  | .element name _ children => name == fragmentName || haveFragment children

def haveFragment : List Node → Bool
  | [] => false
  | n :: ns => n.hasFragment || haveFragment ns

end

theorem isFragment_of_hasFragment {n : Node} (h : n.hasFragment = false) :
    n.isFragment = false := by
  cases n with
  | text s => rfl
  | element name attributes children =>
    rw [hasFragment, Bool.or_eq_false_iff] at h
    simpa [isFragment, isElement, name?] using h.1

mutual

theorem textsUnder_fragmentName {parent : Option String} (hp : parent ≠ some fragmentName) :
    (n : Node) → n.isFragment = false → textsUnder (some fragmentName) parent n = []
  | .text s, _ => by
    have hs : isSelected (some fragmentName) parent = false := by
      simpa [isSelected] using hp
    rw [textsUnder, hs]
    rfl
  | .element name _ children, h => by
    have hn : name ≠ fragmentName := by simpa [isFragment, isElement, name?] using h
    exact childTexts_fragmentName hn 0 children

theorem childTexts_fragmentName {name : String} (hn : name ≠ fragmentName) (index : Nat) :
    (ns : List Node) → childTexts (some fragmentName) name index ns = []
  | [] => rfl
  | n :: ns => by
    rw [childTexts, childTexts_fragmentName hn _ ns, List.append_nil]
    by_cases hf : n.isFragment = true
    · rw [if_pos hf]
    · rw [if_neg hf, textsUnder_fragmentName (by simpa using hn) n (Bool.eq_false_iff.2 hf)]
      rfl

end

theorem texts_fragmentName {n : Node} (h : n.hasFragment = false) :
    n.texts (some fragmentName) = [] :=
  textsUnder_fragmentName (Option.some_ne_none fragmentName).symm n (isFragment_of_hasFragment h)

mutual

/-- The fragments below a node, those in fragments aside. -/
def fragmentsUnder : Node → List (String × List Node)
  | .text _ => []
  | .element name _ children => fragmentsAmong name children

/-- The fragments among nodes that will stand in an element of the name `host`, and below them. -/
def fragmentsAmong (host : String) : List Node → List (String × List Node)
  | [] => []
  | n :: ns =>
    (if n.isFragment then [(host, n.children)] else n.fragmentsUnder) ++ fragmentsAmong host ns

end

theorem fragmentsAmong_append (host : String) (ns ms : List Node) :
    fragmentsAmong host (ns ++ ms) = fragmentsAmong host ns ++ fragmentsAmong host ms := by
  induction ns with
  | nil => rfl
  | cons n ns ih => rw [List.cons_append, fragmentsAmong, fragmentsAmong, ih, List.append_assoc]

mutual

theorem fragmentsUnder_eq_nil : (n : Node) → n.hasFragment = false → n.fragmentsUnder = []
  | .text _, _ => rfl
  | .element name _ children, h => by
    rw [hasFragment, Bool.or_eq_false_iff] at h
    exact fragmentsAmong_eq_nil name children h.2

theorem fragmentsAmong_eq_nil (host : String) :
    (ns : List Node) → haveFragment ns = false → fragmentsAmong host ns = []
  | [], _ => rfl
  | n :: ns, h => by
    rw [haveFragment, Bool.or_eq_false_iff] at h
    rw [fragmentsAmong, isFragment_of_hasFragment h.1, fragmentsUnder_eq_nil n h.1,
      fragmentsAmong_eq_nil host ns h.2]
    rfl

end

section Edit

variable {ε : Type} (f : String → Except ε String)

mutual

theorem fragmentsUnder_editUnder (container parent : Option String) : (n : Node) →
    (editUnder f container parent n).1.fragmentsUnder = n.fragmentsUnder
  | .text s => by
    rw [editUnder]
    split
    · cases f s <;> rfl
    · rfl
  | .element name attributes children => fragmentsAmong_editChildren container name name children

theorem fragmentsAmong_editChildren (container : Option String) (name host : String) :
    (ns : List Node) →
      fragmentsAmong host (editChildren f container name ns).1 = fragmentsAmong host ns
  | [] => rfl
  | n :: ns => by
    have hn := fragmentsUnder_editUnder container (some name) n
    have hns := fragmentsAmong_editChildren container name host ns
    have hf := isFragment_editUnder f container (some name) n
    rw [editChildren]
    split
    · rw [fragmentsAmong, fragmentsAmong, hns]
    · rename_i hnf
      generalize editUnder f container (some name) n = r at hn hf
      obtain ⟨n', e⟩ := r
      simp only at hn hf
      cases e with
      | some e => rw [fragmentsAmong, fragmentsAmong, hn, hf, if_neg hnf, if_neg hnf]
      | none => rw [fragmentsAmong, fragmentsAmong, hn, hns, hf, if_neg hnf, if_neg hnf]

end

end Edit

/-! ## Flat trees -/

theorem flattenChildren_append (ns ms : List Node) :
    flattenChildren (ns ++ ms) = flattenChildren ns ++ flattenChildren ms := by
  induction ns with
  | nil => rfl
  | cons n ns ih => rw [List.cons_append, flattenChildren, flattenChildren, ih, List.append_assoc]

theorem isFragment_flatten (n : Node) : n.flatten.isFragment = n.isFragment := by
  cases n <;> rfl

theorem children_flatten (n : Node) : n.flatten.children = flattenChildren n.children := by
  cases n <;> rfl

mutual

theorem flatten_eq_self : (n : Node) → n.hasFragment = false → n.flatten = n
  | text _, _ => rfl
  | element name attributes children, h => by
    rw [hasFragment, Bool.or_eq_false_iff] at h
    rw [flatten, flattenChildren_eq_self children h.2]

theorem flattenChildren_eq_self :
    (ns : List Node) → haveFragment ns = false → flattenChildren ns = ns
  | [], _ => rfl
  | n :: ns, h => by
    rw [haveFragment, Bool.or_eq_false_iff] at h
    rw [flattenChildren, isFragment_of_hasFragment h.1, flatten_eq_self n h.1,
      flattenChildren_eq_self ns h.2]
    rfl

end

mutual

/-- A flat tree has nothing left to flatten. -/
theorem flatten_flatten : (n : Node) → n.flatten.flatten = n.flatten
  | text _ => rfl
  | element name attributes children => by
    simp only [flatten, flattenChildren_flattenChildren children]

theorem flattenChildren_flattenChildren :
    (ns : List Node) → flattenChildren (flattenChildren ns) = flattenChildren ns
  | [] => rfl
  | n :: ns => by
    rw [flattenChildren, flattenChildren_append, flattenChildren_flattenChildren ns]
    refine congrArg (· ++ _) ?_
    by_cases hf : n.isFragment = true
    · rw [if_pos hf]
      cases n with
      | text s => rfl
      | element name attributes children => exact flattenChildren_flattenChildren children
    · rw [if_neg hf, flattenChildren, flattenChildren, isFragment_flatten, if_neg hf,
        flatten_flatten n, List.append_nil]

end

/-- Where texts directly in two elements are scanned alike, the same texts are scanned among their
children. -/
theorem childStrings_congr {container : Option String} {name host : String}
    (h : isSelected container (some name) = isSelected container (some host)) (ns : List Node) :
    childStrings container name ns = childStrings container host ns := by
  induction ns with
  | nil => rfl
  | cons n ns ih =>
    rw [childStrings_cons, childStrings_cons, ih]
    cases n with
    | text s => rw [textsUnder, textsUnder, h]
    | element name attributes children => rfl

mutual

theorem mem_strings_flatten (container parent : Option String) (s : String) :
    (n : Node) → (s ∈ (textsUnder container parent n.flatten).map (·.2) ↔
      s ∈ (textsUnder container parent n).map (·.2) ∨
        ∃ x ∈ n.fragmentsUnder, s ∈ childStrings container x.1 (flattenChildren x.2))
  | .text t => by simp [flatten, fragmentsUnder]
  | .element name attributes children => mem_childStrings_flattenChildren container name s children

/-- The texts of a flat tree are those outside of the fragments that it had and those in them. -/
theorem mem_childStrings_flattenChildren (container : Option String) (host s : String) :
    (ns : List Node) → (s ∈ childStrings container host (flattenChildren ns) ↔
      s ∈ childStrings container host ns ∨
        ∃ x ∈ fragmentsAmong host ns, s ∈ childStrings container x.1 (flattenChildren x.2))
  | [] => by simp [flattenChildren, fragmentsAmong, childStrings, childTexts]
  | n :: ns => by
    have hn := mem_strings_flatten container (some host) s n
    have hns := mem_childStrings_flattenChildren container host s ns
    rw [flattenChildren, childStrings_append, childStrings_cons, fragmentsAmong]
    simp only [List.mem_append, or_and_right, exists_or]
    by_cases hf : n.isFragment = true
    · simp only [hf, ↓reduceIte, children_flatten, List.mem_singleton, exists_eq_left,
        List.not_mem_nil, false_or, hns]
      exact or_left_comm
    · have hf' := isFragment_flatten n
      simp only [Bool.not_eq_true] at hf
      rw [hf] at hf'
      simp only [hf, hf', Bool.false_eq_true, ↓reduceIte, childStrings_cons, hn, hns,
        List.mem_append]
      rw [show childStrings container host [] = [] from rfl]
      simp only [List.not_mem_nil, or_false]
      exact or_or_or_comm

end

/-- Where the rewriting does not fail, the texts outside of fragments are the rewritten ones. -/
theorem map_childStrings_editChildren {ε : Type} {f : String → Except ε String}
    {container : Option String} {name : String} {ns edited : List Node}
    (h : editChildren f container name ns = (edited, none)) :
    (childStrings container name ns).map f = (childStrings container name edited).map .ok := by
  have ht := childTexts_editChildren f container name 0 ns (by rw [h])
  have hs := congrArg (List.map Prod.snd) ht
  rw [h, List.map_map, List.map_map] at hs
  rw [childStrings, childStrings, List.map_map, List.map_map]
  exact hs.symm

end Node

/-! ## Places -/

namespace Place

/-- The name of the element that the lacking children will stand in if those of the root will stand
in one of the name `host`. -/
def hostOf (host : String) : Place → String
  | root .. => host
  | inside _ _ name _ _ => name

theorem mem_fragments_fill {place : Place} (hv : place.Visible) (host : String)
    (x : String × List Node) (ns : List Node) :
    x ∈ Node.fragmentsAmong host (place.fill ns).children ↔
      x ∈ Node.fragmentsAmong (place.hostOf host) ns ∨
        x ∈ Node.fragmentsAmong host (place.fill []).children := by
  induction place generalizing ns with
  | root => simp [fill, hostOf, Node.children, Node.fragmentsAmong]
  | inside outer before name attributes after ih =>
    have hf := Node.isFragment_eq_false hv.2 attributes
    rw [fill, fill, ih hv.1, ih hv.1 (before ++ _)]
    simp only [Node.fragmentsAmong_append, Node.fragmentsAmong, hf, List.mem_append, hostOf,
      Node.fragmentsUnder, Bool.false_eq_true, ↓reduceIte]
    simp only [List.not_mem_nil, false_or]
    constructor
    · rintro ((h | h | h) | h)
      · exact .inr (.inl (.inl h))
      · exact .inl h
      · exact .inr (.inl (.inr h))
      · exact .inr (.inr h)
    · rintro (h | (h | h) | h)
      · exact .inl (.inr (.inl h))
      · exact .inl (.inl h)
      · exact .inl (.inr (.inr h))
      · exact .inr h

section Loop

variable {place : Place} {host : String} {x : String × List Node}
  {before body after : List Node} {first last : Node}

theorem mem_fragments_of_body (hv : place.Visible)
    (hx : x ∈ Node.fragmentsAmong (place.hostOf host) body) :
    x ∈ Node.fragmentsAmong host
      (place.fill (before ++ first :: (body ++ last :: after))).children := by
  rw [mem_fragments_fill hv, ← List.singleton_append]
  simp only [Node.fragmentsAmong_append, List.mem_append]
  exact .inl (.inr (.inr (.inl hx)))

theorem mem_fragments_of_replace (hv : place.Visible) {output : List Node}
    (hx : x ∈ Node.fragmentsAmong host
      (place.fill (before ++ .fragment output :: after)).children) :
    x = (place.hostOf host, output) ∨ x ∈ Node.fragmentsAmong host
      (place.fill (before ++ first :: (body ++ last :: after))).children := by
  rw [mem_fragments_fill hv, Node.fragmentsAmong_append, Node.fragmentsAmong,
    Node.isFragment_fragment, if_pos rfl] at hx
  rw [mem_fragments_fill hv, Node.fragmentsAmong_append, Node.fragmentsAmong,
    Node.fragmentsAmong_append, Node.fragmentsAmong]
  simp only [List.mem_append, List.mem_singleton] at hx ⊢
  rcases hx with (hb | rfl | ha) | houter
  · exact .inr (.inl (.inl hb))
  · exact .inl rfl
  · exact .inr (.inl (.inr (.inr (.inr (.inr ha)))))
  · exact .inr (.inr houter)

end Loop

end Place

end FormLetter
