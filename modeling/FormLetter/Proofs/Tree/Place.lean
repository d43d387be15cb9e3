import FormLetter.Loop.Site
import FormLetter.Proofs.Tree.Position

/-!
# Places in a tree

A `Place` is a tree that lacks the children of one of its elements, and `fill` gives them to it.
What is read off a tree (`texts_fill`), found in it (`get?_fill`) or rewritten
(`modifyChildren_fill`) splits into a part for the children and a part for what is around them. A
loop has such a place (`Site.Of.exists_place`): it is a run of children there, and unrolling puts
one fragment for it. For a loop that is found, the run starts with an element and ends where the
loop does (`Site.exists_place_of_find?`).
-/

namespace FormLetter

open FormLetter.Loop

namespace Node

theorem isFragment_fragment (ns : List Node) : (fragment ns).isFragment = true := by
  simp [fragment, isFragment, isElement, name?]

theorem isFragment_eq_false {name : String} (h : name ≠ fragmentName)
    (attributes : List (String × String)) (ns : List Node) :
    (element name attributes ns).isFragment = false := by
  simpa [isFragment, isElement, name?] using h

theorem get?_append (p q : Path) (n : Node) : n.get? (p ++ q) = (n.get? p).bind (get? q) := by
  induction p generalizing n with
  | nil => rfl
  | cons i p ih =>
    simp only [List.cons_append, get?, Option.bind_assoc]
    exact congrArg _ (funext ih)

theorem modifyChildren_append (f : List Node → List Node) (p : Path) (i : Nat) (q : Path)
    (n : Node) : n.modifyChildren f (p ++ i :: q) =
      n.modifyChildren (fun cs => cs.modify i (modifyChildren f q)) p := by
  induction p generalizing n with
  | nil => cases n <;> rfl
  | cons j p ih =>
    cases n with
    | text s => rfl
    | element name attributes cs =>
      simp only [List.cons_append, modifyChildren]
      rw [funext ih]

theorem childTexts_eq_among (container : Option String) (name : String) (index : Nat)
    (ns : List Node) : childTexts container name index ns =
      among (fun n => if n.isFragment then [] else textsUnder container (some name) n) index
        ns := by
  induction ns generalizing index with
  | nil => rfl
  | cons n ns ih =>
    rw [childTexts, among, ih]
    split <;> rfl

theorem childTexts_append (container : Option String) (name : String) (index : Nat)
    (ns ms : List Node) : childTexts container name index (ns ++ ms) =
      childTexts container name index ns ++ childTexts container name (index + ns.length) ms := by
  rw [childTexts_eq_among, childTexts_eq_among, childTexts_eq_among, among_append]

theorem exists_of_mem_childTexts {container : Option String} {name : String} {index i : Nat}
    {q : Path} {s : String} {ns : List Node}
    (h : (i :: q, s) ∈ childTexts container name index ns) :
    ∃ c, index ≤ i ∧ ns[i - index]? = some c ∧ (q, s) ∈ textsUnder container (some name) c := by
  rw [childTexts_eq_among] at h
  obtain ⟨j, p, c, he, hc, hm⟩ := mem_among_iff.1 h
  cases he
  refine ⟨c, Nat.le_add_right index j, by rw [Nat.add_sub_cancel_left, hc], ?_⟩
  split at hm
  · cases hm
  · exact hm

theorem isSelected_none (container : Option String) :
    isSelected container none = container.isNone := by
  cases container <;> rfl

theorem isSelected_of_ne {container : Option String} {parent : String}
    (h : container ≠ some parent) : isSelected container (some parent) = container.isNone := by
  have hb : (some parent == container) = false := beq_eq_false_iff_ne.2 (Ne.symm h)
  rw [isSelected, hb, Bool.or_false]

/-- A text counts the same on its own as among the children of an element that holds no scanned
texts. -/
theorem textsUnder_eq_texts {container : Option String} {parent : String}
    (h : container ≠ some parent) (n : Node) :
    textsUnder container (some parent) n = n.texts container := by
  cases n with
  | element name attributes cs => rfl
  | text s => rw [texts, textsUnder, textsUnder, isSelected_of_ne h, isSelected_none]

end Node

/-- A tree without the children of one of its elements. -/
inductive Place where
  | root (name : String) (attributes : List (String × String))
  /-- An element among the children that `outer` lacks. -/
  | inside (outer : Place) (before : List Node) (name : String)
      (attributes : List (String × String)) (after : List Node)

namespace Place

/-- The name of the element that lacks its children. -/
def name : Place → String
  | root name _ => name
  | inside _ _ name _ _ => name

def attributes : Place → List (String × String)
  | root _ attributes => attributes
  | inside _ _ _ attributes _ => attributes

def path : Place → Path
  | root .. => []
  | inside outer before _ _ _ => outer.path ++ [before.length]

def fill : Place → List Node → Node
  | root name attributes, ns => .element name attributes ns
  | inside outer before name attributes after, ns =>
    outer.fill (before ++ .element name attributes ns :: after)

/-- No element on the way is a fragment, the root aside. -/
def Visible : Place → Prop
  | root .. => True
  | inside outer _ name _ _ => outer.Visible ∧ name ≠ Node.fragmentName

theorem get?_fill (place : Place) (ns : List Node) :
    (place.fill ns).get? place.path = some (.element place.name place.attributes ns) := by
  induction place generalizing ns with
  | root => rfl
  | inside outer before name attributes after ih =>
    rw [fill, path, Node.get?_append, ih]
    simp [Node.get?, Node.children, Place.name, Place.attributes]

theorem exists_fill_eq (place : Place) : ∃ name attributes, ∀ ns, ∃ children,
    place.fill ns = .element name attributes children := by
  induction place with
  | root name attributes => exact ⟨name, attributes, fun ns => ⟨ns, rfl⟩⟩
  | inside outer before name attributes after ih =>
    obtain ⟨rootName, rootAttributes, h⟩ := ih
    exact ⟨rootName, rootAttributes, fun ns => h _⟩

/-- A path that goes on below the place is one into its children. -/
theorem get?_fill_append (place : Place) (ns : List Node) (q : Path) :
    (place.fill ns).get? (place.path ++ q) =
      (Node.element place.name place.attributes ns).get? q := by
  rw [Node.get?_append, get?_fill, Option.bind_some]

theorem modifyChildren_fill (place : Place) (f : List Node → List Node) (ns : List Node) :
    (place.fill ns).modifyChildren f place.path = place.fill (f ns) := by
  induction place generalizing f ns with
  | root => rfl
  | inside outer before name attributes after ih =>
    rw [fill, path, Node.modifyChildren_append, ih, fill, List.modify_eq_take_drop]
    simp [Node.modifyChildren]

/-- A visible element is at a visible place. -/
theorem exists_of_get? (outer : Place) (ho : outer.Visible) {cs : List Node} {p : Path} {m : Node}
    (hv : Node.Visible p (.element outer.name outer.attributes cs))
    (h : (Node.element outer.name outer.attributes cs).get? p = some m)
    (hm : m.name?.isSome) :
    ∃ place : Place, place.Visible ∧ place.path = outer.path ++ p ∧
      m = .element place.name place.attributes m.children ∧
      place.fill m.children = outer.fill cs := by
  induction p generalizing outer cs with
  | nil =>
    cases h
    exact ⟨outer, ho, (List.append_nil _).symm, rfl, rfl⟩
  | cons i p ih =>
    obtain ⟨c, hc, hf, hv⟩ := hv
    simp only [Node.get?, hc, Option.bind_some] at h
    simp only [Node.children] at hc
    cases c with
    | text s =>
      -- nothing is below a text, and the text itself is no element
      cases p with
      | nil => cases h; simp [Node.name?] at hm
      | cons j p => simp [Node.get?, Node.children] at h
    | element name attributes ds =>
      obtain ⟨hlt, hi⟩ := List.getElem?_eq_some_iff.1 hc
      have hlen : (cs.take i).length = i := List.length_take_of_le (Nat.le_of_lt hlt)
      have hsplit : cs.take i ++ .element name attributes ds :: cs.drop (i + 1) = cs := by
        rw [← hi, List.getElem_cons_drop, List.take_append_drop]
      have hname : name ≠ Node.fragmentName := by
        simpa [Node.isFragment, Node.isElement, Node.name?] using hf
      obtain ⟨place, h1, h2, h3, h4⟩ :=
        ih (.inside outer (cs.take i) name attributes (cs.drop (i + 1))) ⟨ho, hname⟩ hv h
      refine ⟨place, h1, ?_, h3, ?_⟩
      · rw [h2, path, hlen, List.append_assoc, List.singleton_append]
      · rw [h4, fill, hsplit]

/-! ## Texts -/

/-- A text found below a place, with its path from the root. -/
def locate (place : Place) : Path × String → Path × String
  | (q, s) => (place.path ++ q, s)

def leading (container : Option String) : Place → List (Path × String)
  | root .. => []
  | inside outer before _ _ _ =>
    outer.leading container ++ (Node.childTexts container outer.name 0 before).map outer.locate

/-- The scanned texts after the children of the place. -/
def trailing (container : Option String) : Place → List (Path × String)
  | root .. => []
  | inside outer before _ _ after =>
    (Node.childTexts container outer.name (before.length + 1) after).map outer.locate ++
      outer.trailing container

theorem texts_fill {place : Place} (hv : place.Visible) (container : Option String)
    (ns : List Node) : (place.fill ns).texts container =
      place.leading container ++ (Node.childTexts container place.name 0 ns).map place.locate ++
        place.trailing container := by
  induction place generalizing ns with
  | root name attributes =>
    simp only [fill, leading, trailing, List.nil_append, List.append_nil, Place.name]
    rw [show (root name attributes).locate = id from funext fun _ => rfl, List.map_id]
    rfl
  | inside outer before name attributes after ih =>
    have hf := Node.isFragment_eq_false hv.2 attributes ns
    rw [fill, ih hv.1, Node.childTexts_append, Node.childTexts, hf]
    simp only [leading, trailing, Place.name, Node.textsUnder, Bool.false_eq_true, ↓reduceIte,
      Nat.zero_add, List.map_append, List.map_map, List.append_assoc]
    congr 3
    refine List.map_congr_left fun x _ => ?_
    simp [locate, path]

end Place

theorem Loop.Site.replace_fill (header : Header) (place : Place)
    (before body after output : List Node) (first last : Node) :
    (Site.mk header place.path before.length body).replace output
      (place.fill (before ++ first :: (body ++ last :: after))) =
        place.fill (before ++ .fragment output :: after) := by
  have hlength : before.length + body.length + 2 =
      (before ++ first :: (body ++ [last])).length := by
    simp only [List.length_append, List.length_cons, List.length_nil]
    omega
  have hsplit : before ++ first :: (body ++ last :: after) =
      (before ++ first :: (body ++ [last])) ++ after := by
    simp
  rw [Site.replace, Place.modifyChildren_fill, List.take_left' rfl, hlength, hsplit,
    List.drop_left' rfl]

/-- The parts of a loop are children of one place, and its output is a fragment there. -/
theorem Loop.Site.Of.exists_place {site : Site} {root : Node} (h : site.Of root) :
    ∃ (place : Place) (before : List Node) (first last : Node) (after : List Node),
      place.Visible ∧ place.path = site.parent ∧ before.length = site.index ∧
      first.isFragment = false ∧ last.isFragment = false ∧
      root = place.fill (before ++ first :: (site.body ++ last :: after)) ∧
      ∀ output, site.replace output root = place.fill (before ++ .fragment output :: after) := by
  obtain ⟨header, parent, index, body⟩ := site
  obtain ⟨hv, element, before, first, last, after, hg, hc, hi, hf, hl⟩ := h
  simp only at hv hg hc hi
  have hname : element.name?.isSome := by
    cases element with
    | text s => simp [Node.children] at hc
    | element name attributes cs => rfl
  obtain ⟨outer, cs, ho, hr⟩ : ∃ (outer : Place) (cs : List Node), outer.Visible ∧
      outer.path = [] ∧ root = .element outer.name outer.attributes cs ∧ outer.fill cs = root := by
    cases root with
    | text s =>
      cases hp : parent with
      | nil => rw [hp] at hg; cases hg; simp [Node.name?] at hname
      | cons i p => rw [hp] at hg; simp [Node.get?, Node.children] at hg
    | element name attributes cs => exact ⟨.root name attributes, cs, trivial, rfl, rfl, rfl⟩
  obtain ⟨hp, hroot, hfill⟩ := hr
  rw [hroot] at hv hg
  obtain ⟨place, h1, h2, -, h4⟩ := Place.exists_of_get? outer ho hv hg hname
  rw [hc, hfill] at h4
  rw [hp, List.nil_append] at h2
  refine ⟨place, before, first, last, after, h1, h2, hi, hf, hl, h4.symm, fun output => ?_⟩
  rw [← h2, ← h4, ← hi, Site.replace_fill]

/-- The first node of a loop is an element. -/
theorem Loop.Site.find?_boundary {layout : Layout} {root : Node} {site : Site}
    (h : Site.find? layout root = .ok (some site)) :
    ∃ first, root.get? (site.parent ++ [site.index]) = some first ∧ first.name?.isSome = true := by
  obtain ⟨path, rest, k, hstart, rfl, hdepth, -, -⟩ := Site.find?_eq_some h
  have hlt := (Layout.boundaryDepth?_bounds hdepth).2
  obtain ⟨j, rest, rfl⟩ := List.exists_cons_of_ne_nil (l := rest) (by
    rintro rfl
    simp at hlt)
  have hv := firstStart?_visible hstart
  rw [← List.singleton_append, ← List.append_assoc] at hv
  -- the marker is below the boundary, and nothing is below a text
  obtain ⟨first, child, hg, hc, -⟩ := exists_child_of_visible hv
  refine ⟨first, hg, ?_⟩
  cases first with
  | text s => simp [Node.children] at hc
  | element name attributes children => rfl

theorem drop_through (before after : List Node) (n : Node) :
    (before ++ n :: after).drop (before.length + 1) = after :=
  List.drop_length_add_append 1

/-- The parts of a loop that is found. It starts with an element, and its end is where the body
ends. -/
theorem Loop.Site.exists_place_of_find? {layout : Layout} {root : Node} {site : Site}
    (h : Site.find? layout root = .ok (some site)) :
    ∃ (place : Place) (before : List Node) (first last : Node) (after : List Node),
      place.Visible ∧ place.path = site.parent ∧ before.length = site.index ∧
      first.name?.isSome = true ∧ first.isFragment = false ∧ last.isFragment = false ∧
      root = place.fill (before ++ first :: (site.body ++ last :: after)) ∧
      endIndex? layout.textContainer 1 (site.body ++ last :: after) = some site.body.length ∧
      ∀ output, site.replace output root = place.fill (before ++ .fragment output :: after) := by
  obtain ⟨path, rest, k, -, -, -, hk, hbody⟩ := Site.find?_eq_some h
  obtain ⟨place, before, first, last, after, hv, hp, hi, hf, hl, hroot, hreplace⟩ :=
    (Site.find?_of h).exists_place
  refine ⟨place, before, first, last, after, hv, hp, hi, ?_, hf, hl, hroot, ?_, hreplace⟩
  · obtain ⟨boundary, hg, hname⟩ := Site.find?_boundary h
    rw [hroot, ← hp, ← hi, Place.get?_fill_append] at hg
    simp only [Node.get?, Node.children, List.getElem?_append_right (Nat.le_refl _), Nat.sub_self,
      List.getElem?_cons_zero, Option.bind_some, Option.some.injEq] at hg
    rwa [hg]
  · have hfollowing : (((root.get? site.parent).map Node.children).getD []).drop
        (site.index + 1) = site.body ++ last :: after := by
      rw [hroot, ← hp, place.get?_fill, ← hi]
      exact drop_through before _ first
    have hlength : k = site.body.length := by
      obtain ⟨n, hn, -⟩ := endIndex?_spec hk
      obtain ⟨hlt, -⟩ := List.getElem?_eq_some_iff.1 hn
      rw [hbody, List.length_take]
      omega
    rwa [hfollowing, hlength] at hk

end FormLetter
