import FormLetter.Proofs.Tree.Fragment
import FormLetter.Proofs.Tree.Normal

/-!
# Flattening

A flat tree has the nodes of the tree that it comes from, less the fragments below the root
(`alike_flatten`): the same labels in document order, and one node above another exactly where it
was before. `flattenInPlace` is flattening as it is done on one tree that is changed, which takes
the children out of an element only where one of them is a fragment, and the two are the same
(`flattenInPlace_eq`).
-/

namespace FormLetter.Node

def lasting (n : Node) : List (Path × Node) := n.positions.filter fun x => !x.2.isFragment

/-- The nodes that flattening leaves, in document order: all but the fragments below the root. -/
def survivors (n : Node) : List (Path × Node) :=
  n.positions.filter fun x => x.1.isEmpty || !x.2.isFragment

theorem filter_among {α : Type} {f : Node → List (Path × α)} {q r : Path × α → Bool}
    (h : ∀ i p a, r (i :: p, a) = q (p, a)) (index : Nat) (ns : List Node) :
    (among f index ns).filter r = among (fun n => (f n).filter q) index ns := by
  induction ns generalizing index with
  | nil => rfl
  | cons n ns ih =>
    have hq : (r ∘ fun x : Path × α => (index :: x.1, x.2)) = q := funext fun x => h index x.1 x.2
    rw [among, among, List.filter_append, List.filter_map, hq, ih]

theorem survivors_eq (n : Node) : n.survivors = ([], n) :: among lasting 0 n.children := by
  rw [survivors, positions_eq, List.filter_cons_of_pos rfl,
    filter_among (q := fun x => !x.2.isFragment) fun _ _ _ => rfl]
  rfl

theorem lasting_eq (n : Node) :
    n.lasting = if n.isFragment then among lasting 0 n.children else n.survivors := by
  rw [survivors_eq, lasting, positions_eq, List.filter_cons,
    filter_among (q := fun x => !x.2.isFragment) fun _ _ _ => rfl]
  cases n.isFragment <;> rfl

theorem label_flatten (n : Node) : n.flatten.label = n.label := by
  cases n <;> rfl

theorem isFragment_eq_of_label_eq {n m : Node} (h : n.label = m.label) :
    n.isFragment = m.isFragment := by
  cases n <;> cases m <;> cases h <;> rfl

/-- Two lists of nodes with the same labels in the same order, of which one is above another in the
first exactly if it is in the second. -/
structure Alike (xs ys : List (Path × Node)) : Prop where
  labels : ys.map (·.2.label) = xs.map (·.2.label)
  ancestors : ∀ x ∈ xs.zip ys, ∀ y ∈ xs.zip ys, (x.1.1 <+: y.1.1 ↔ x.2.1 <+: y.2.1)

def Unrelated (xs ys : List (Path × Node)) : Prop :=
  ∀ x ∈ xs, ∀ y ∈ ys, ¬ x.1 <+: y.1 ∧ ¬ y.1 <+: x.1

theorem unrelated_among (f : Node → List (Path × Node)) (index : Nat) (ns ms : List Node) :
    Unrelated (among f index ns) (among f (index + ns.length) ms) := by
  intro x hx y hy
  obtain ⟨i, p, hp, -, hi⟩ := exists_cons_of_mem_among hx
  obtain ⟨j, q, hq, hj, -⟩ := exists_cons_of_mem_among hy
  rw [hp, hq, List.cons_prefix_cons, List.cons_prefix_cons]
  exact ⟨fun h => by omega, fun h => by omega⟩

namespace Alike

variable {xs ys xs' ys' : List (Path × Node)}

theorem nil : Alike [] [] := ⟨rfl, fun _ h => by cases h⟩

theorem length (h : Alike xs ys) : xs.length = ys.length := by
  have hl := congrArg List.length h.labels
  rw [List.length_map, List.length_map] at hl
  exact hl.symm

theorem map (h : Alike xs ys) {g k : Path → Path} (hg : ∀ p q, g p <+: g q ↔ p <+: q)
    (hk : ∀ p q, k p <+: k q ↔ p <+: q) :
    Alike (xs.map fun x => (g x.1, x.2)) (ys.map fun y => (k y.1, y.2)) := by
  refine ⟨by simpa [Function.comp_def] using h.labels, ?_⟩
  rw [List.zip_map]
  intro x hx y hy
  obtain ⟨x, hxm, rfl⟩ := List.mem_map.1 hx
  obtain ⟨y, hym, rfl⟩ := List.mem_map.1 hy
  exact (hg x.1.1 y.1.1).trans ((h.ancestors x hxm y hym).trans (hk x.2.1 y.2.1).symm)

theorem root (h : Alike xs ys) {n m : Node} (hlabel : m.label = n.label)
    (hx : ∀ x ∈ xs, x.1 ≠ []) (hy : ∀ y ∈ ys, y.1 ≠ []) :
    Alike (([], n) :: xs) (([], m) :: ys) := by
  refine ⟨by rw [List.map_cons, List.map_cons, h.labels, hlabel], ?_⟩
  rw [List.zip_cons_cons]
  intro x hxm y hym
  rcases List.mem_cons.1 hxm with rfl | hxm
  · exact iff_of_true List.nil_prefix List.nil_prefix
  · rcases List.mem_cons.1 hym with rfl | hym
    · obtain ⟨h1, h2⟩ := List.of_mem_zip hxm
      exact iff_of_false (fun hp => hx _ h1 (List.prefix_nil.1 hp))
        fun hp => hy _ h2 (List.prefix_nil.1 hp)
    · exact h.ancestors x hxm y hym

theorem append (h : Alike xs ys) (h' : Alike xs' ys') (hx : Unrelated xs xs')
    (hy : Unrelated ys ys') : Alike (xs ++ xs') (ys ++ ys') := by
  refine ⟨by rw [List.map_append, List.map_append, h.labels, h'.labels], ?_⟩
  rw [List.zip_append h.length]
  intro x hxm y hym
  rcases List.mem_append.1 hxm with hxm | hxm <;> rcases List.mem_append.1 hym with hym | hym
  · exact h.ancestors x hxm y hym
  · obtain ⟨h1, h2⟩ := List.of_mem_zip hxm
    obtain ⟨h3, h4⟩ := List.of_mem_zip hym
    exact iff_of_false (hx _ h1 _ h3).1 (hy _ h2 _ h4).1
  · obtain ⟨h1, h2⟩ := List.of_mem_zip hxm
    obtain ⟨h3, h4⟩ := List.of_mem_zip hym
    exact iff_of_false (hx _ h3 _ h1).2 (hy _ h4 _ h2).2
  · exact h'.ancestors x hxm y hym

end Alike

/-! ## What flattening leaves -/

/-- What lasts among children is alike to what is among them when they are flattened, wherever they
stand, if this is so among the children of each of them. -/
theorem alike_flattenChildren {ns : List Node}
    (h : ∀ c ∈ ns, ∀ i j, Alike (among lasting i c.children)
      (among positions j (flattenChildren c.children))) (i j : Nat) :
    Alike (among lasting i ns) (among positions j (flattenChildren ns)) := by
  induction ns generalizing i j with
  | nil => exact .nil
  | cons n ns ih =>
    obtain ⟨hn, hns⟩ := List.forall_mem_cons.1 h
    have hsplit : among lasting i (n :: ns) = among lasting i [n] ++ among lasting (i + 1) ns := by
      rw [← List.singleton_append, among_append, List.length_singleton]
    rw [hsplit, flattenChildren, among_append]
    refine .append ?_ (ih hns (i + 1) _) (unrelated_among _ i [n] ns) (unrelated_among _ j _ _)
    rw [among, among, List.append_nil, lasting_eq]
    by_cases hf : n.isFragment = true
    · rw [if_pos hf, if_pos hf, children_flatten]
      have hout := (hn 0 j).map (k := id) (fun _ _ => List.prefix_cons_inj i) fun _ _ => Iff.rfl
      rwa [show (fun y : Path × Node => (id y.1, y.2)) = id from rfl, List.map_id] at hout
    · rw [if_neg hf, if_neg hf, among, among, List.append_nil, survivors_eq, positions_eq,
        children_flatten]
      have hroot := (hn 0 0).root (label_flatten n) (fun x => ne_nil_of_mem_among)
        fun y => ne_nil_of_mem_among
      exact hroot.map (fun _ _ => List.prefix_cons_inj i) fun _ _ => List.prefix_cons_inj j

theorem alike_among (n : Node) (i j : Nat) : Alike (among lasting i n.children)
    (among positions j (flattenChildren n.children)) := by
  induction n using Node.induction generalizing i j with
  | text s => exact .nil
  | element name attributes children ih => exact alike_flattenChildren ih i j

/-- The nodes of a flat tree are those that it keeps, related as they were. -/
theorem alike_flatten (n : Node) : Alike n.survivors n.flatten.positions := by
  rw [survivors_eq, positions_eq, children_flatten]
  exact (alike_among n 0 0).root (label_flatten n) (fun x => ne_nil_of_mem_among)
    fun y => ne_nil_of_mem_among

/-- A tree in which no element below the root is a fragment. -/
def IsFlat (n : Node) : Prop :=
  ∀ p m, p ≠ [] → n.get? p = some m → m.isFragment = false

theorem isFlat_flatten (n : Node) : n.flatten.IsFlat := by
  intro p m hp hm
  have hmem : (p, m) ∈ among positions 0 (flattenChildren n.children) := by
    have hpos := mem_positions_iff.2 hm
    rw [positions_eq, List.mem_cons, children_flatten] at hpos
    exact hpos.resolve_left fun he => hp (congrArg Prod.fst he)
  -- the node has the label of one that flattening leaves, and the label says that it is no fragment
  have hlabel : m.label ∈ (among lasting 0 n.children).map (·.2.label) := by
    rw [← (alike_among n 0 0).labels]
    exact List.mem_map_of_mem (f := fun x : Path × Node => x.2.label) hmem
  obtain ⟨x, hx, he⟩ := List.mem_map.1 hlabel
  obtain ⟨i, q, c, -, -, hlast⟩ := mem_among_iff.1 (show (x.1, x.2) ∈ _ from hx)
  have hx2 : x.2.isFragment = false := by simpa using (List.mem_filter.1 hlast).2
  rw [← isFragment_eq_of_label_eq he, hx2]

theorem flattenChildren_of_forall {ns : List Node}
    (h : ∀ c ∈ ns, c.isFragment = false ∧ c.flatten = c) : flattenChildren ns = ns := by
  induction ns with
  | nil => rfl
  | cons n ns ih =>
    obtain ⟨⟨hf, hn⟩, hns⟩ := List.forall_mem_cons.1 h
    rw [flattenChildren, hf, hn, ih hns]
    rfl

theorem IsFlat.flatten_eq {n : Node} (h : n.IsFlat) : n.flatten = n := by
  induction n using Node.induction with
  | text s => rfl
  | element name attributes children ih =>
    rw [flatten, flattenChildren_of_forall fun c hc => ?_]
    obtain ⟨i, hi⟩ := List.mem_iff_getElem?.1 hc
    have hbelow : ∀ p, (element name attributes children).get? (i :: p) = c.get? p := fun p => by
      rw [get?, Node.children, hi, Option.bind_some]
    refine ⟨h [i] c (List.cons_ne_nil i []) (hbelow []), ih c hc fun p m hp hm => ?_⟩
    exact h (i :: p) m (List.cons_ne_nil i p) ((hbelow p).trans hm)

/-- Flattening does nothing to flat trees, and to no others. -/
theorem flatten_eq_self_iff {n : Node} : n.flatten = n ↔ n.IsFlat :=
  ⟨fun h => h ▸ isFlat_flatten n, IsFlat.flatten_eq⟩

theorem textContents_flattenChildren {ns : List Node}
    (h : ∀ c ∈ ns, c.flatten.textContent = c.textContent) :
    textContents (flattenChildren ns) = textContents ns := by
  induction ns with
  | nil => rfl
  | cons n ns ih =>
    obtain ⟨hn, hns⟩ := List.forall_mem_cons.1 h
    rw [flattenChildren, textContents_append, ih hns, textContents, ← hn]
    refine congrArg (· ++ _) ?_
    by_cases hf : n.isFragment = true
    · rw [if_pos hf]
      cases n with
      | text s => cases hf
      | element name attributes children => rfl
    · rw [if_neg hf, textContents, textContents, String.append_empty]

theorem textContent_flatten (n : Node) : n.flatten.textContent = n.textContent := by
  induction n using Node.induction with
  | text s => rfl
  | element name attributes children ih => exact textContents_flattenChildren ih

/-! ## In place -/

mutual

/-- Flattens a tree. Where no child is a fragment they are flattened where they stand. -/
def flattenInPlace : Node → Node
  | .text s => .text s
  | .element name attributes children =>
    if children.any isFragment then .element name attributes (drainInto [] children)
    else .element name attributes (flattenEach children)

def flattenEach : List Node → List Node
  | [] => []
  | n :: ns => n.flattenInPlace :: flattenEach ns

/-- Takes nodes out of a list and puts them at the end of another, or what is in them if they are
fragments. -/
def drainInto (done : List Node) : List Node → List Node
  | [] => done
  | n :: ns =>
    let n := n.flattenInPlace
    if n.isFragment then drainInto (done ++ n.children) ns else drainInto (done ++ [n]) ns

end

section InPlace

variable {ns : List Node} (h : ∀ c ∈ ns, c.flattenInPlace = c.flatten)
include h

theorem flattenEach_eq (hf : ns.any isFragment = false) : flattenEach ns = flattenChildren ns := by
  induction ns with
  | nil => rfl
  | cons n ns ih =>
    obtain ⟨hn, hns⟩ := List.forall_mem_cons.1 h
    rw [List.any_cons, Bool.or_eq_false_iff] at hf
    rw [flattenEach, flattenChildren, hn, ih hns hf.2, hf.1]
    rfl

theorem drainInto_eq (done : List Node) : drainInto done ns = done ++ flattenChildren ns := by
  induction ns generalizing done with
  | nil => rw [drainInto, flattenChildren, List.append_nil]
  | cons n ns ih =>
    obtain ⟨hn, hns⟩ := List.forall_mem_cons.1 h
    rw [drainInto, flattenChildren, hn, isFragment_flatten, ← List.append_assoc]
    split
    · exact ih hns _
    · exact ih hns _

end InPlace

/-- Flattening in place is flattening. -/
theorem flattenInPlace_eq (n : Node) : n.flattenInPlace = n.flatten := by
  induction n using Node.induction with
  | text s => rfl
  | element name attributes children ih =>
    rw [flattenInPlace, flatten]
    by_cases hf : children.any isFragment = true
    · rw [if_pos hf, drainInto_eq ih, List.nil_append]
    · rw [if_neg hf, flattenEach_eq ih (Bool.eq_false_iff.2 hf)]

/-- Flattening takes out the fragments below the root, and nothing else. The root stays, and so do
the other nodes, in their order and related as they were, and the text. Flat trees stay as they
are. -/
theorem flatten_removes_fragments (n : Node) :
    n.flattenInPlace = n.flatten ∧
    n.flatten.name? = n.name? ∧ n.flatten.attributes = n.attributes ∧
    n.flatten.IsFlat ∧
    n.flatten.positions.map (·.2.label) = n.survivors.map (·.2.label) ∧
    n.flatten.textContent = n.textContent ∧
    (∀ x ∈ n.survivors.zip n.flatten.positions, ∀ y ∈ n.survivors.zip n.flatten.positions,
      (x.1.1 <+: y.1.1 ↔ x.2.1 <+: y.2.1)) ∧
    (n.flatten = n ↔ n.IsFlat) ∧
    n.flatten.flatten = n.flatten := by
  have halike := alike_flatten n
  refine ⟨flattenInPlace_eq n, ?_, ?_, isFlat_flatten n, halike.labels, textContent_flatten n,
    halike.ancestors, flatten_eq_self_iff, flatten_flatten n⟩
  · cases n <;> rfl
  · cases n <;> rfl

/-- Fragments in fragments go as well. -/
example : (element "w:body" [] [fragment [text "a", fragment [text "b"]], text "c"]).flatten =
    element "w:body" [] [text "a", text "b", text "c"] :=
  rfl

end FormLetter.Node
