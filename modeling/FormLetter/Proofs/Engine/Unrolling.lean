import FormLetter.Proofs.Engine.Run
import FormLetter.Proofs.Engine.Termination
import FormLetter.Proofs.Loop.Counting

/-!
# One round in place

`unroll` makes a tree of a tree. `unrollInPlace` is the round as it is done on one tree that is
changed: the boundary is found and the body copied out, the copies are expanded, and only then the
parent is looked up again by its path and its children are replaced. It has stops of its own, for a
parent that is not there and for runs of children that are out of range. None of them is ever
reached, and the two are the same (`unrollInPlace_eq`), so a round that fails has changed nothing,
and one that does not has changed one run of children (`unroll_atomic`).
-/

namespace FormLetter

open FormLetter.Json FormLetter.Loop

def slice? (start stop : Nat) (ns : List Node) : Option (List Node) :=
  if start ≤ stop ∧ stop ≤ ns.length then some ((ns.take stop).drop start) else none

/-- The list with other nodes in the place of the run from one index up to another, that one
included. -/
def splice? (start last : Nat) (others ns : List Node) : Option (List Node) :=
  if start ≤ last + 1 ∧ last < ns.length then
    some (ns.take start ++ others ++ ns.drop (last + 1))
  else none

/-- The children of the element at a path. A text has none that could be changed. -/
def Node.childrenAt? (root : Node) (path : Path) : Option (List Node) :=
  (root.get? path).bind fun
    | .element _ _ children => some children
    | .text _ => none

theorem slice?_eq (before body after : List Node) (first : Node) :
    slice? (before.length + 1) (before.length + 1 + body.length)
      (before ++ first :: (body ++ after)) = some body := by
  rw [slice?, if_pos ⟨by omega, by simp; omega⟩, List.drop_take, drop_through,
    Nat.add_sub_cancel_left, List.take_left]

theorem splice?_eq (before body after others : List Node) (first last : Node) :
    splice? before.length (before.length + 1 + body.length) others
      (before ++ first :: (body ++ last :: after)) = some (before ++ others ++ after) := by
  rw [splice?, if_pos ⟨by omega, by simp; omega⟩, List.take_left, Nat.add_assoc _ body.length,
    ← List.drop_drop, drop_through, drop_through]

theorem Place.childrenAt?_fill (place : Place) (ns : List Node) :
    (place.fill ns).childrenAt? place.path = some ns := by
  rw [Node.childrenAt?, place.get?_fill, Option.bind_some]

namespace Engine

/-- Why a round does not go through. -/
inductive Stop where
  /-- The template has an error. -/
  | failed (e : TemplateError)
  /-- The boundary of a marker is in no element. -/
  | lost (marker : String)
  /-- Children are asked for that are not there. -/
  | outOfRange
  deriving DecidableEq, Repr

/-- The copies of a loop body. The items of a loop without a body are not gone through. -/
def copies (engine : Engine) (header : Header) (body : List Node) (ctx : Context) :
    Except TemplateError (List Node) × Context :=
  if body.isEmpty then (.ok [], ctx)
  else forItems header.binding (engine.copyOf body) (items ctx header) ctx

/-- Unrolls the loop whose boundary is the child at an index of the node at a path. -/
def unrollAt (engine : Engine) (header : Header) (parent : Path) (index : Nat) (root : Node)
    (ctx : Context) : Except Stop Bool × Node × Context :=
  let siblings := ((root.get? parent).map Node.children).getD []
  match endIndex? engine.layout.textContainer 1 (siblings.drop (index + 1)) with
  | none => (.error (.failed (.unclosedLoop header.collection)), root, ctx)
  | some k =>
    let last := index + 1 + k
    match slice? (index + 1) last siblings with
    | none => (.error .outOfRange, root, ctx)
    | some body =>
      match engine.copies header body ctx with
      | (.error e, ctx) => (.error (.failed e), root, ctx)
      | (.ok output, ctx) =>
        match root.childrenAt? parent with
        | none => (.error (.lost header.marker), root, ctx)
        | some children =>
          match splice? index last [.fragment output] children with
          | none => (.error .outOfRange, root, ctx)
          | some children => (.ok true, root.modifyChildren (fun _ => children) parent, ctx)

/-- Unrolls the first loop: whether there is one, and the tree and the context as they are left. -/
def unrollInPlace (engine : Engine) (root : Node) (ctx : Context) :
    Except Stop Bool × Node × Context :=
  match firstStart? engine.layout.textContainer root with
  | none => (.ok false, root, ctx)
  | some (path, header) =>
    match engine.layout.boundaryDepth? root path with
    | none => (.error (.failed (.misplacedLoop header.marker)), root, ctx)
    | some depth =>
      let boundary := path.take depth
      match boundary.getLast? with
      | none => (.error (.lost header.marker), root, ctx)
      | some index => engine.unrollAt header boundary.dropLast index root ctx

variable {engine : Engine} {root : Node} {ctx : Context}

/-! ## Context and tree -/

theorem expand_fragment_nil (engine : Engine) (ctx : Context) :
    engine.expand (.fragment []) ctx = .ok (.fragment []) :=
  expand_of_none rfl ctx

theorem output_nil (engine : Engine) (header : Header) (ctx : Context) :
    engine.output header [] ctx = .ok [] := by
  rw [output]
  simp only [expand_fragment_nil]
  induction items ctx header with
  | nil => rfl
  | cons item list ih =>
    rw [List.flatMapM_cons, ih]
    rfl

theorem copies_eq (engine : Engine) (header : Header) (body : List Node) (ctx : Context) :
    engine.copies header body ctx = (engine.output header body ctx, ctx) := by
  rw [copies, forItems_copyOf]
  cases body with
  | nil => rw [output_nil]; rfl
  | cons n ns => rfl

variable {site : Site}

/-- The round goes through at a loop that is there: what is looked up is what was found. -/
theorem unrollAt_of_site (h : Site.find? engine.layout root = .ok (some site)) (ctx : Context) :
    engine.unrollAt site.header site.parent site.index root ctx =
      match engine.output site.header site.body ctx with
      | .error e => (.error (.failed e), root, ctx)
      | .ok output => (.ok true, site.replace output root, ctx) := by
  obtain ⟨place, before, first, last, after, -, hp, hi, -, -, -, hroot, hk, hreplace⟩ :=
    Site.exists_place_of_find? h
  have hsiblings : ((root.get? site.parent).map Node.children).getD [] =
      before ++ first :: (site.body ++ last :: after) := by
    rw [hroot, ← hp, place.get?_fill]
    rfl
  have hchildren : root.childrenAt? site.parent =
      some (before ++ first :: (site.body ++ last :: after)) := by
    rw [hroot, ← hp, place.childrenAt?_fill]
  rw [unrollAt, hsiblings, ← hi]
  simp only [drop_through, hk, slice?_eq, copies_eq]
  cases engine.output site.header site.body ctx with
  | error e => rfl
  | ok output =>
    simp only [hchildren, splice?_eq, hreplace]
    rw [hroot, ← hp, place.modifyChildren_fill, List.append_assoc, List.singleton_append]

theorem unrollInPlace_of_boundary {path : Path} {header : Header} {depth : Nat}
    (hstart : firstStart? engine.layout.textContainer root = some (path, header))
    (hdepth : engine.layout.boundaryDepth? root path = some depth) (ctx : Context) :
    engine.unrollInPlace root ctx =
      engine.unrollAt header (path.take (depth - 1)) (path.getD (depth - 1) 0) root ctx := by
  have hd := Layout.boundaryDepth?_bounds hdepth
  have hlt : depth - 1 < path.length := by omega
  have htake : path.take depth = path.take (depth - 1) ++ [path.getD (depth - 1) 0] := by
    rw [List.getD_eq_getElem?_getD, List.getElem?_eq_getElem hlt, Option.getD_some,
      List.take_append_getElem, Nat.sub_add_cancel hd.1]
  simp only [unrollInPlace, hstart, hdepth, htake, List.getLast?_concat, List.dropLast_concat]

/-- The round in place is the round: it leaves the tree that the round makes, or the one it was
given, and the context that it was given. -/
theorem unrollInPlace_eq (engine : Engine) (root : Node) (ctx : Context) :
    engine.unrollInPlace root ctx =
      match engine.unroll root ctx with
      | (.error e, ctx) => (.error (.failed e), root, ctx)
      | (.ok none, ctx) => (.ok false, root, ctx)
      | (.ok (some tree), ctx) => (.ok true, tree, ctx) := by
  rw [unroll]
  cases hstart : firstStart? engine.layout.textContainer root with
  | none => simp only [unrollInPlace, Site.find?, hstart]
  | some found =>
    obtain ⟨path, header⟩ := found
    cases hdepth : engine.layout.boundaryDepth? root path with
    | none => simp only [unrollInPlace, Site.find?, hstart, hdepth]
    | some depth =>
      rw [unrollInPlace_of_boundary hstart hdepth]
      cases hk : endIndex? engine.layout.textContainer 1
          ((((root.get? (path.take (depth - 1))).map Node.children).getD []).drop
            (path.getD (depth - 1) 0 + 1)) with
      | none => simp only [unrollAt, Site.find?, hstart, hdepth, hk]
      | some k =>
        obtain ⟨body, hsite⟩ : ∃ body, Site.find? engine.layout root =
            .ok (some ⟨header, path.take (depth - 1), path.getD (depth - 1) 0, body⟩) :=
          ⟨_, by simp only [Site.find?, hstart, hdepth, hk]; rfl⟩
        have hround := unrollAt_of_site hsite ctx
        simp only at hround
        simp only [hsite, hround, forItems_copyOf]
        cases engine.output header body ctx <;> rfl

end Engine

/-! ## What a round replaces -/

section Replaced

variable {container : Option String}

/-- The first of the scanned texts with a loop start is in the node at a path. -/
def HoldsFirstStart (container : Option String) (root : Node) (path : Path) : Prop :=
  ∃ before rest s after, root.texts container = before ++ (path ++ rest, s) :: after ∧
    NoStart before ∧ hasStart s = true

def HoldsEnd (container : Option String) (root : Node) (path : Path) : Prop :=
  ∃ rest s, (path ++ rest, s) ∈ root.texts container ∧ hasEnd s = true

/-- The trees differ in one run of children of one element. The first of the run has the first loop
start, the last a loop end, and instead of the run there is one fragment. -/
def LoopReplaced (container : Option String) (root tree : Node) : Prop :=
  ∃ (place : Place) (before : List Node) (first : Node) (body : List Node) (last : Node)
    (after output : List Node), place.Visible ∧
    root = place.fill (before ++ first :: (body ++ last :: after)) ∧
    tree = place.fill (before ++ .fragment output :: after) ∧
    HoldsFirstStart container root (place.path ++ [before.length]) ∧
    HoldsEnd container root (place.path ++ [before.length + body.length + 1])

theorem Node.mem_textsUnder_of_mem_texts {parent : Option String} {n : Node} {q : Path} {s : String}
    (h : (q, s) ∈ n.texts container) : (q, s) ∈ textsUnder container parent n := by
  cases n with
  | element name attributes children => exact h
  | text t =>
    rw [texts, textsUnder, isSelected_none] at h
    split at h
    · rename_i hnone
      rw [textsUnder, isSelected, hnone, Bool.true_or]
      exact h
    · cases h

theorem Place.mem_texts_fill {place : Place} (hv : place.Visible) {before after : List Node}
    {n : Node} {q : Path} {s : String} (hf : n.isFragment = false)
    (h : (q, s) ∈ n.texts container) : (place.path ++ [before.length] ++ q, s) ∈
      (place.fill (before ++ n :: after)).texts container := by
  have hchild : (before.length :: q, s) ∈
      Node.childTexts container place.name 0 (before ++ n :: after) := by
    rw [Node.childTexts_append, Node.childTexts, hf, Nat.zero_add]
    refine List.mem_append_right _ (List.mem_append_left _ ?_)
    exact List.mem_map.2 ⟨(q, s), Node.mem_textsUnder_of_mem_texts h, rfl⟩
  rw [Place.texts_fill hv, List.append_assoc]
  refine List.mem_append_right _ (List.mem_append_left _ (List.mem_map.2 ⟨_, hchild, ?_⟩))
  rw [locate, List.append_assoc, List.singleton_append]

/-- The node at which loops end has a loop end. -/
theorem Loop.exists_hasEnd_of_endIndex? {depth k : Nat} (hd : 0 < depth) {ns : List Node}
    (h : endIndex? container depth ns = some k) :
    ∃ n q s, ns[k]? = some n ∧ (q, s) ∈ n.texts container ∧ hasEnd s = true := by
  induction ns generalizing depth k with
  | nil => cases h
  | cons n ns ih =>
    rw [endIndex?] at h
    split at h
    · obtain ⟨j, hj, rfl⟩ := Option.map_eq_some_iff.1 h
      exact ih hd hj
    · split at h
      · rename_i hnone
        cases h
        obtain ⟨front, hfront, hle⟩ := (depthAfter?_eq_none_iff hd).1 hnone
        obtain ⟨s, hs, hend⟩ := List.countP_pos_iff.1 (show 0 < endsIn front by omega)
        obtain ⟨⟨q, s⟩, hm, rfl⟩ := List.mem_map.1 (hfront.subset hs)
        exact ⟨n, q, s, rfl, hm, hend⟩
      · rename_i after hafter
        obtain ⟨hfront, he⟩ := (depthAfter?_eq_some_iff hd).1 hafter
        have hlt := hfront _ (List.prefix_refl _)
        obtain ⟨j, hj, rfl⟩ := Option.map_eq_some_iff.1 h
        exact ih (by omega) hj

/-- Output in the place of the loop that is found. -/
theorem Loop.Site.loopReplaced {layout : Layout} {root : Node} {site : Site}
    (h : Site.find? layout root = .ok (some site)) (output : List Node) :
    LoopReplaced layout.textContainer root (site.replace output root) := by
  obtain ⟨path, rest, -, hstart, rfl, -⟩ := Site.find?_eq_some h
  obtain ⟨place, before, first, last, after, hv, hp, hi, -, -, hl, hroot, hk, hreplace⟩ :=
    exists_place_of_find? h
  refine ⟨place, before, first, site.body, last, after, output, hv, hroot, hreplace output, ?_, ?_⟩
  · obtain ⟨pre, s, post, ht, hpre, hs⟩ := exists_of_firstStart? hstart
    rw [hp, hi]
    refine ⟨pre, rest, s, post, ?_, hpre, hasStart_of_startIn? hs⟩
    rw [ht, List.append_assoc, List.singleton_append]
  · obtain ⟨n, q, s, hn, hq, hs⟩ := exists_hasEnd_of_endIndex? Nat.one_pos hk
    rw [List.getElem?_append_right (Nat.le_refl _), Nat.sub_self] at hn
    cases hn
    have hlength : (before ++ first :: site.body).length =
        before.length + site.body.length + 1 := by
      rw [List.length_append, List.length_cons, Nat.add_assoc]
    have hsplit : before ++ first :: (site.body ++ last :: after) =
        (before ++ first :: site.body) ++ last :: after := by
      simp
    rw [hroot, hsplit, ← hlength]
    exact ⟨q, s, Place.mem_texts_fill hv hl hq, hs⟩

end Replaced

/-- A round is atomic, and it is local. It gives back the context that it was given. If it fails, or
there is no loop, the tree is the one that it was given; otherwise one run of children is replaced,
from the first loop start to a loop end. No round is stopped but by an error of the template. -/
theorem Engine.unroll_atomic (engine : Engine) (root : Node) (ctx : Context) :
    (∃ e, engine.unroll root ctx = (.error e, ctx) ∧
      engine.unrollInPlace root ctx = (.error (.failed e), root, ctx)) ∨
    (engine.unroll root ctx = (.ok none, ctx) ∧
      engine.unrollInPlace root ctx = (.ok false, root, ctx)) ∨
    (∃ tree, engine.unroll root ctx = (.ok (some tree), ctx) ∧
      engine.unrollInPlace root ctx = (.ok true, tree, ctx) ∧
      LoopReplaced engine.layout.textContainer root tree) := by
  rw [unrollInPlace_eq, unroll]
  cases hs : Site.find? engine.layout root with
  | error e => exact .inl ⟨e, rfl, rfl⟩
  | ok found =>
    cases found with
    | none => exact .inr (.inl ⟨rfl, rfl⟩)
    | some site =>
      simp only [forItems_copyOf]
      cases engine.output site.header site.body ctx with
      | error e => exact .inl ⟨e, rfl, rfl⟩
      | ok output => exact .inr (.inr ⟨_, rfl, rfl, Site.loopReplaced hs output⟩)

end FormLetter
