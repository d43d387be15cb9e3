import FormLetter.Error
import FormLetter.Loop.Marker
import FormLetter.Tree.Layout
import FormLetter.Tree.Texts

/-!
# Where a loop stands

The loop that is unrolled first is the one whose marker comes first. It runs from the boundary of
that marker to the sibling of the boundary that holds the matching end; what stands between is its
body. `Site.replace` puts finished output in the place of all of it.
-/

namespace FormLetter

open FormLetter.Loop

namespace Loop

/-- How many loops are open after some texts if `depth` are open before; none if one of the texts
ends the last of them. -/
def depthAfter? (depth : Nat) : List String → Option Nat
  | [] => some depth
  | s :: texts =>
    let started := if hasStart s then depth + 1 else depth
    if hasEnd s then
      if started ≤ 1 then none else depthAfter? (started - 1) texts
    else depthAfter? started texts

/-- The index of the node at which the last of `depth` open loops ends. Fragments are passed
over. -/
def endIndex? (container : Option String) (depth : Nat) : List Node → Option Nat
  | [] => none
  | n :: ns =>
    if n.isFragment then (endIndex? container depth ns).map (· + 1)
    else
      match depthAfter? depth ((n.texts container).map (·.2)) with
      | none => some 0
      | some after => (endIndex? container after ns).map (· + 1)

theorem endIndex?_spec {container : Option String} {depth k : Nat} {ns : List Node}
    (h : endIndex? container depth ns = some k) : ∃ n, ns[k]? = some n ∧ n.isFragment = false := by
  induction ns generalizing depth k with
  | nil => cases h
  | cons n ns ih =>
    rw [endIndex?] at h
    split at h
    · obtain ⟨j, hj, rfl⟩ := Option.map_eq_some_iff.1 h
      exact ih hj
    · rename_i hf
      split at h
      · cases h
        exact ⟨n, rfl, by simpa using hf⟩
      · obtain ⟨j, hj, rfl⟩ := Option.map_eq_some_iff.1 h
        exact ih hj

def firstStart? (container : Option String) (root : Node) : Option (Path × Header) :=
  (root.texts container).findSome? fun (path, s) => (startIn? s).map fun header => (path, header)

/-- A loop of a tree: its header, the path of the element that its parts are children of, the
index of the first part, the boundary, and the body. The end comes right after the body. -/
structure Site where
  header : Header
  parent : Path
  index : Nat
  body : List Node

namespace Site

/-- The first loop of a tree, if it has one. -/
def find? (layout : Layout) (root : Node) : Except TemplateError (Option Site) :=
  match firstStart? layout.textContainer root with
  | none => .ok none
  | some (path, header) =>
    match layout.boundaryDepth? root path with
    | none => .error (.misplacedLoop header.marker)
    | some depth =>
      let parent := path.take (depth - 1)
      let index := path.getD (depth - 1) 0
      let following := ((root.get? parent).map Node.children).getD [] |>.drop (index + 1)
      match endIndex? layout.textContainer 1 following with
      | none => .error (.unclosedLoop header.collection)
      | some k => .ok (some ⟨header, parent, index, following.take k⟩)

/-- The tree with the loop, boundary and end included, replaced by a fragment. -/
def replace (site : Site) (output : List Node) (root : Node) : Node :=
  root.modifyChildren
    (fun cs =>
      cs.take site.index ++ Node.fragment output :: cs.drop (site.index + site.body.length + 2))
    site.parent

/-- The site is one of this tree: no fragment is above it, and boundary, body and end are
consecutive children of the element at its path, the boundary and the end no fragments. -/
structure Of (site : Site) (root : Node) : Prop where
  visible : Node.Visible site.parent root
  parts : ∃ element before first last after, root.get? site.parent = some element ∧
    element.children = before ++ first :: (site.body ++ last :: after) ∧
    before.length = site.index ∧ first.isFragment = false ∧ last.isFragment = false

end Site

theorem eq_take_append_getD (path : Path) {d : Nat} (h : d < path.length) :
    path = path.take d ++ path.getD d 0 :: path.drop (d + 1) := by
  rw [List.getD_eq_getElem?_getD, List.getElem?_eq_getElem h, Option.getD_some,
    List.getElem_cons_drop, List.take_append_drop]

theorem firstStart?_visible {container : Option String} {root : Node} {path : Path}
    {header : Header} (h : firstStart? container root = some (path, header)) :
    Node.Visible path root := by
  obtain ⟨⟨p, s⟩, hm, hs⟩ := List.exists_of_findSome?_eq_some h
  obtain ⟨_, _, he⟩ := Option.map_eq_some_iff.1 hs
  cases he
  exact Node.visible_of_mem_texts hm

theorem exists_child_of_visible {parent rest : Path} {i : Nat} {root : Node}
    (h : Node.Visible (parent ++ i :: rest) root) :
    ∃ element first, root.get? parent = some element ∧ element.children[i]? = some first ∧
      first.isFragment = false := by
  induction parent generalizing root with
  | nil =>
    obtain ⟨c, hc, hf, _⟩ := h
    exact ⟨root, c, rfl, hc, hf⟩
  | cons j parent ih =>
    obtain ⟨c, hc, _, hv⟩ := h
    obtain ⟨element, first, hg, hr⟩ := ih hv
    exact ⟨element, first, by simp only [Node.get?, hc, Option.bind_some, hg], hr⟩

/-- What is found of a tree: the first marker, the boundary above it, and the body, which is what
stands between the boundary and the end. -/
theorem Site.find?_eq_some {layout : Layout} {root : Node} {site : Site}
    (h : Site.find? layout root = .ok (some site)) : ∃ path rest k,
      firstStart? layout.textContainer root = some (path, site.header) ∧
      path = site.parent ++ site.index :: rest ∧
      layout.boundaryDepth? root path = some (site.parent.length + 1) ∧
      endIndex? layout.textContainer 1
        ((((root.get? site.parent).map Node.children).getD []).drop (site.index + 1)) = some k ∧
      site.body =
        ((((root.get? site.parent).map Node.children).getD []).drop (site.index + 1)).take k := by
  unfold Site.find? at h
  split at h
  · cases h
  · rename_i path header hstart
    split at h
    · cases h
    · rename_i depth hdepth
      dsimp only at h
      split at h
      · cases h
      · rename_i k hk
        cases h
        have hd := Layout.boundaryDepth?_bounds hdepth
        refine ⟨path, path.drop (depth - 1 + 1), k, hstart, eq_take_append_getD path (by omega),
          ?_, hk, rfl⟩
        rw [hdepth, List.length_take]
        congr 1
        omega

theorem Site.find?_of {layout : Layout} {root : Node} {site : Site}
    (h : Site.find? layout root = .ok (some site)) : site.Of root := by
  obtain ⟨path, rest, k, hstart, rfl, -, hk, hbody⟩ := Site.find?_eq_some h
  have hv := firstStart?_visible hstart
  obtain ⟨element, first, hg, hi, hf⟩ := exists_child_of_visible hv
  obtain ⟨last, hl, hlf⟩ := endIndex?_spec hk
  simp only [hg, Option.map_some, Option.getD_some] at hbody hl
  refine ⟨hv.of_append, element, element.children.take site.index, first, last,
    (element.children.drop (site.index + 1)).drop (k + 1), hg, ?_, ?_, hf, hlf⟩
  · obtain ⟨hlt, rfl⟩ := List.getElem?_eq_some_iff.1 hi
    obtain ⟨hlt', rfl⟩ := List.getElem?_eq_some_iff.1 hl
    rw [hbody, List.getElem_cons_drop hlt', List.take_append_drop, List.getElem_cons_drop,
      List.take_append_drop]
  · obtain ⟨hlt, _⟩ := List.getElem?_eq_some_iff.1 hi
    simp only [List.length_take]
    omega

/-! ## Weights -/

theorem weights_parts {before body after : List Node} {first last : Node}
    (hf : first.isFragment = false) (hl : last.isFragment = false) :
    Node.weights (before ++ first :: (body ++ last :: after)) =
      Node.weights before + first.weight + Node.weights body + last.weight +
        Node.weights after := by
  simp only [Node.weights_append, Node.weights, hf, hl, Bool.false_eq_true, ↓reduceIte]
  omega

/-- The body alone weighs less than the tree. -/
theorem Site.Of.weight_body_lt {site : Site} {root : Node} (h : site.Of root) :
    (Node.fragment site.body).weight < root.weight := by
  obtain ⟨hv, element, before, first, last, after, hg, hc, -, hf, hl⟩ := h
  have hle := Node.weight_le_of_get? hv hg
  cases element with
  | text s => simp [Node.children] at hc
  | element name attributes cs =>
    simp only [Node.children] at hc
    have hfirst := Node.weight_pos first
    have hlast := Node.weight_pos last
    simp only [Node.weight, hc, weights_parts hf hl] at hle
    simp only [Node.fragment, Node.weight]
    omega

/-- Putting output in the place of a loop makes the tree weigh less. -/
theorem Site.Of.weight_replace_lt {site : Site} {root : Node} (h : site.Of root)
    (output : List Node) : (site.replace output root).weight < root.weight := by
  obtain ⟨hv, element, before, first, last, after, hg, hc, hi, hf, hl⟩ := h
  refine Node.weight_modifyChildren_lt hv hg ?_
  have hfirst := Node.weight_pos first
  have htake : element.children.take site.index = before := by
    rw [hc, ← hi, List.take_left']
    rfl
  have hdrop : element.children.drop (site.index + site.body.length + 2) = after := by
    rw [hc, ← hi, show before.length + site.body.length + 2 =
      (before ++ first :: (site.body ++ [last])).length by simp; omega,
      show before ++ first :: (site.body ++ last :: after) =
        (before ++ first :: (site.body ++ [last])) ++ after by simp]
    exact List.drop_left' rfl
  rw [htake, hdrop, hc, weights_parts hf hl]
  simp only [Node.weights_append, Node.weights, Node.isFragment, Node.fragment, Node.isElement,
    Node.name?, beq_self_eq_true, ↓reduceIte]
  omega

end Loop

end FormLetter
