import FormLetter.Proofs.Tree.Edit
import FormLetter.Proofs.Tree.Place

/-!
# Skeletons

The skeleton of a tree is the tree with its texts emptied. In a run the texts of finished output
are data, the others are template: `redact` empties the former only. What a run looks at does not
depend on them (`texts_redact`, `endIndex?_redactAll`, `find?_redact`), and a redacted tree is all
that it takes to know the skeleton of what the run makes next (`redact_replace`).
-/

namespace FormLetter

open FormLetter.Loop

namespace Node

mutual

/-- The tree with every text emptied. -/
def skeleton : Node → Node
  | .text _ => .text ""
  | .element name attributes children => .element name attributes (skeletons children)

def skeletons : List Node → List Node
  | [] => []
  | n :: ns => n.skeleton :: skeletons ns

end

mutual

/-- The tree with every text in a fragment below the root emptied. -/
def redact : Node → Node
  | .text s => .text s
  | .element name attributes children => .element name attributes (redactAll children)

def redactAll : List Node → List Node
  | [] => []
  | n :: ns => (if n.isFragment then n.skeleton else n.redact) :: redactAll ns

end

theorem isFragment_skeleton (n : Node) : n.skeleton.isFragment = n.isFragment := by
  cases n <;> rfl

theorem isFragment_redact (n : Node) : n.redact.isFragment = n.isFragment := by
  cases n <;> rfl

theorem children_redact (n : Node) : n.redact.children = redactAll n.children := by
  cases n <;> rfl

theorem isElement_redact (name : String) (n : Node) :
    n.redact.isElement name = n.isElement name := by
  cases n <;> rfl

theorem skeletons_append (ns ms : List Node) :
    skeletons (ns ++ ms) = skeletons ns ++ skeletons ms := by
  induction ns with
  | nil => rfl
  | cons n ns ih => rw [List.cons_append, skeletons, skeletons, ih, List.cons_append]

theorem redactAll_eq_map (ns : List Node) :
    redactAll ns = ns.map fun n => if n.isFragment then n.skeleton else n.redact := by
  induction ns with
  | nil => rfl
  | cons n ns ih => rw [redactAll, ih, List.map_cons]

theorem redactAll_append (ns ms : List Node) :
    redactAll (ns ++ ms) = redactAll ns ++ redactAll ms := by
  simp only [redactAll_eq_map, List.map_append]

theorem length_redactAll (ns : List Node) : (redactAll ns).length = ns.length := by
  rw [redactAll_eq_map, List.length_map]

mutual

theorem skeleton_skeleton : (n : Node) → n.skeleton.skeleton = n.skeleton
  | .text _ => rfl
  | .element name attributes children => by
    simp only [skeleton, skeletons_skeletons children]

theorem skeletons_skeletons : (ns : List Node) → skeletons (skeletons ns) = skeletons ns
  | [] => rfl
  | n :: ns => by simp only [skeletons, skeleton_skeleton n, skeletons_skeletons ns]

end

mutual

theorem skeleton_redact : (n : Node) → n.redact.skeleton = n.skeleton
  | .text _ => rfl
  | .element name attributes children => by
    simp only [redact, skeleton, skeletons_redactAll children]

theorem skeletons_redactAll : (ns : List Node) → skeletons (redactAll ns) = skeletons ns
  | [] => rfl
  | n :: ns => by
    rw [redactAll, skeletons, skeletons, skeletons_redactAll ns]
    split
    · rw [skeleton_skeleton]
    · rw [skeleton_redact n]

end

mutual

theorem skeleton_flatten : (n : Node) → n.flatten.skeleton = n.skeleton.flatten
  | .text _ => rfl
  | .element name attributes children => by
    simp only [flatten, skeleton, skeletons_flattenChildren children]

theorem skeletons_flattenChildren :
    (ns : List Node) → skeletons (flattenChildren ns) = flattenChildren (skeletons ns)
  | [] => rfl
  | n :: ns => by
    rw [flattenChildren, skeletons_append, skeletons_flattenChildren ns, skeletons, flattenChildren,
      isFragment_skeleton, ← skeleton_flatten n]
    split
    · cases n <;> rfl
    · rfl

end

section Edit

variable {ε : Type} (f : String → Except ε String)

mutual

theorem skeleton_editUnder (container parent : Option String) :
    (n : Node) → (editUnder f container parent n).1.skeleton = n.skeleton
  | .text s => by
    rw [editUnder]
    split
    · cases f s <;> rfl
    · rfl
  | .element name attributes children =>
    congrArg (Node.element name attributes) (skeletons_editChildren container name children)

theorem skeletons_editChildren (container : Option String) (name : String) :
    (ns : List Node) → skeletons (editChildren f container name ns).1 = skeletons ns
  | [] => rfl
  | n :: ns => by
    have hn := skeleton_editUnder container (some name) n
    have hns := skeletons_editChildren container name ns
    rw [editChildren]
    split
    · rw [skeletons, skeletons, hns]
    · generalize editUnder f container (some name) n = r at hn
      obtain ⟨n', e⟩ := r
      cases e with
      | some e => rw [skeletons, skeletons, hn]
      | none => rw [skeletons, skeletons, hn, hns]

end

theorem skeleton_editTexts (container : Option String) (n : Node) :
    (editTexts f container n).1.skeleton = n.skeleton :=
  skeleton_editUnder f container none n

end Edit

/-! ## What does not depend on finished output -/

mutual

theorem textsUnder_redact (container parent : Option String) :
    (n : Node) → textsUnder container parent n.redact = textsUnder container parent n
  | .text _ => rfl
  | .element name _ children => childTexts_redactAll container name 0 children

theorem childTexts_redactAll (container : Option String) (name : String) (index : Nat) :
    (ns : List Node) → childTexts container name index (redactAll ns) =
      childTexts container name index ns
  | [] => rfl
  | n :: ns => by
    rw [redactAll, childTexts, childTexts, childTexts_redactAll container name _ ns]
    by_cases hf : n.isFragment = true
    · simp only [hf, ↓reduceIte, isFragment_skeleton]
    · simp only [hf, ↓reduceIte, isFragment_redact, textsUnder_redact container _ n,
        Bool.false_eq_true]

end

theorem texts_redact (container : Option String) (n : Node) :
    n.redact.texts container = n.texts container :=
  textsUnder_redact container none n

theorem get?_redact {p : Path} {n : Node} (hv : Visible p n) :
    n.redact.get? p = (n.get? p).map redact := by
  induction p generalizing n with
  | nil => rfl
  | cons i p ih =>
    obtain ⟨c, hc, hf, hv⟩ := hv
    rw [get?, get?, children_redact, redactAll_eq_map, List.getElem?_map, hc, Option.map_some,
      if_neg (by simp [hf]), Option.bind_some, Option.bind_some, ih hv]

theorem isAt_redact (name : String) {p : Path} {n : Node} (hv : Visible p n) :
    Layout.isAt name n.redact p = Layout.isAt name n p := by
  rw [Layout.isAt, Layout.isAt, get?_redact hv]
  cases n.get? p with
  | none => rfl
  | some m => exact isElement_redact name m

theorem Visible.take {p : Path} {n : Node} (h : Visible p n) (d : Nat) : Visible (p.take d) n := by
  rw [← List.take_append_drop d p] at h
  exact h.of_append

theorem boundaryDepth?_redact (layout : Layout) {p : Path} {n : Node} (hv : Visible p n) :
    layout.boundaryDepth? n.redact p = layout.boundaryDepth? n p := by
  simp only [Layout.boundaryDepth?, Layout.blockDepth?, isAt_redact _ (hv.take _)]

end Node

theorem Loop.endIndex?_redactAll (container : Option String) (depth : Nat) (ns : List Node) :
    endIndex? container depth (Node.redactAll ns) = endIndex? container depth ns := by
  induction ns generalizing depth with
  | nil => rfl
  | cons n ns ih =>
    rw [Node.redactAll, endIndex?, endIndex?]
    by_cases hf : n.isFragment = true
    · simp only [hf, ↓reduceIte, Node.isFragment_skeleton, ih]
    · simp only [hf, ↓reduceIte, Node.isFragment_redact, Node.texts_redact, ih, Bool.false_eq_true]

namespace Loop.Site

def redact (site : Site) : Site := { site with body := Node.redactAll site.body }

/-- The same loop is found whatever finished output says. -/
theorem find?_redact (layout : Layout) (root : Node) :
    find? layout root.redact = (find? layout root).map (Option.map redact) := by
  rw [find?, find?, firstStart?, Node.texts_redact, ← firstStart?]
  cases hs : firstStart? layout.textContainer root with
  | none => rfl
  | some start =>
    obtain ⟨path, header⟩ := start
    have hv := firstStart?_visible hs
    simp only [Node.boundaryDepth?_redact layout hv]
    cases layout.boundaryDepth? root path with
    | none => rfl
    | some depth =>
      have hdrop : ∀ k,
          (((root.redact.get? (path.take (depth - 1))).map Node.children).getD []).drop k =
            Node.redactAll
              ((((root.get? (path.take (depth - 1))).map Node.children).getD []).drop k) := by
        intro k
        rw [Node.get?_redact (hv.take _)]
        cases root.get? (path.take (depth - 1)) with
        | none => simp [Node.redactAll]
        | some n => simp [Node.children_redact, Node.redactAll_eq_map]
      simp only [hdrop, endIndex?_redactAll]
      cases endIndex? layout.textContainer 1 _ with
      | none => rfl
      | some k => simp [Except.map, redact, Node.redactAll_eq_map, List.map_take]

section Alike

variable {layout : Layout} {root root' : Node}

theorem find?_of_redact_eq (layout : Layout) {root root' : Node} (hr : root.redact = root'.redact) :
    (find? layout root).map (Option.map redact) = (find? layout root').map (Option.map redact) := by
  rw [← find?_redact, hr, find?_redact]

theorem find?_error_of_redact_eq (hr : root.redact = root'.redact) {e : TemplateError}
    (h : find? layout root = .error e) : find? layout root' = .error e := by
  have hf := find?_of_redact_eq layout hr
  rw [h] at hf
  cases hf' : find? layout root' with
  | error e' => rw [hf'] at hf; cases hf; rfl
  | ok found => rw [hf'] at hf; cases hf

theorem find?_none_of_redact_eq (hr : root.redact = root'.redact)
    (h : find? layout root = .ok none) : find? layout root' = .ok none := by
  have hf := find?_of_redact_eq layout hr
  rw [h] at hf
  rcases hf' : find? layout root' with e | _ | site <;> rw [hf'] at hf <;> cases hf

/-- Trees that differ in finished output only have the same first loop, up to finished output. -/
theorem find?_some_of_redact_eq (hr : root.redact = root'.redact) {site : Site}
    (h : find? layout root = .ok (some site)) :
    ∃ site', find? layout root' = .ok (some site') ∧ site.redact = site'.redact := by
  have hf := find?_of_redact_eq layout hr
  rw [h] at hf
  rcases hf' : find? layout root' with e | _ | site'
  · rw [hf'] at hf
    cases hf
  · rw [hf'] at hf
    cases hf
  · rw [hf'] at hf
    exact ⟨site', rfl, Option.some.inj (Except.ok.inj hf)⟩

end Alike

end Loop.Site

namespace Place

def redact : Place → Place
  | root name attributes => root name attributes
  | inside outer before name attributes after =>
    inside outer.redact (Node.redactAll before) name attributes (Node.redactAll after)

theorem path_redact (place : Place) : place.redact.path = place.path := by
  induction place with
  | root => rfl
  | inside outer before name attributes after ih =>
    rw [redact, path, path, ih, Node.length_redactAll]

theorem redact_fill {place : Place} (hv : place.Visible) (ns : List Node) :
    (place.fill ns).redact = place.redact.fill (Node.redactAll ns) := by
  induction place generalizing ns with
  | root => rfl
  | inside outer before name attributes after ih =>
    rw [fill, ih hv.1, redact, fill, Node.redactAll_append, Node.redactAll,
      if_neg (by simp [Node.isFragment_eq_false hv.2]), Node.redact]

end Place

/-- Unrolling a loop and redacting: only the skeleton of the output counts. -/
theorem Loop.Site.Of.redact_replace {site : Site} {root : Node} (h : site.Of root)
    (output : List Node) : (site.replace output root).redact =
      site.redact.replace (Node.skeletons output) root.redact := by
  obtain ⟨place, before, first, last, after, hv, hp, hi, hf, hl, hroot, hreplace⟩ := h.exists_place
  obtain ⟨header, parent, index, body⟩ := site
  simp only at hp hi hroot
  subst hp hi
  rw [hreplace, hroot, Place.redact_fill hv, Place.redact_fill hv]
  simp only [Node.redactAll_append, Node.redactAll, hf, hl, Node.isFragment_fragment,
    Bool.false_eq_true, ↓reduceIte]
  rw [redact, ← Place.path_redact, ← Node.length_redactAll before, Site.replace_fill]
  rfl

end FormLetter
