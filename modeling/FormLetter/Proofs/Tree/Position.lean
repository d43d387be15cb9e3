import FormLetter.Tree.Texts

/-!
# Nodes by their paths

`positions` lists the nodes of a tree, each with the path that leads to it
(`mem_positions_iff`). What is listed below a node is listed child by child
(`among`), which is how other lists by paths come by their members and their order. A node that is
rewritten at a path is the one that is found there (`get?_of_modify?`), and the nodes elsewhere
keep their labels (`label_of_modify?`).
-/

namespace FormLetter.Node

/-- A property of all trees is inherited from the children of an element. -/
@[elab_as_elim]
theorem induction {P : Node → Prop} (text : ∀ s, P (.text s))
    (element : ∀ name attributes children, (∀ c ∈ children, P c) →
      P (.element name attributes children)) (n : Node) : P n :=
  Node.rec (motive_1 := P) (motive_2 := fun ns => ∀ c ∈ ns, P c) text element
    (List.forall_mem_nil P) (fun _ _ hn hns => List.forall_mem_cons.2 ⟨hn, hns⟩) n

/-- A list by paths in lexicographic order, none of them twice. -/
def InOrder {α : Type} (xs : List (Path × α)) : Prop := xs.Pairwise fun x y => x.1 < y.1

section Among

variable {α : Type} (f : Node → List (Path × α))

/-- What is listed for each of the children, by paths from their parent. The first child has this
index. -/
def among (index : Nat) : List Node → List (Path × α)
  | [] => []
  | n :: ns => (f n).map (fun x => (index :: x.1, x.2)) ++ among (index + 1) ns

variable {f} {index : Nat} {ns : List Node}

theorem mem_among_iff {p : Path} {a : α} :
    (p, a) ∈ among f index ns ↔
      ∃ i q c, p = (index + i) :: q ∧ ns[i]? = some c ∧ (q, a) ∈ f c := by
  induction ns generalizing index with
  | nil => simp [among]
  | cons n ns ih =>
    rw [among, List.mem_append, ih]
    constructor
    · rintro (h | ⟨i, q, c, rfl, hc, hm⟩)
      · obtain ⟨x, hx, he⟩ := List.mem_map.1 h
        cases he
        exact ⟨0, x.1, n, rfl, rfl, hx⟩
      · exact ⟨i + 1, q, c, by rw [Nat.add_assoc, Nat.add_comm 1], hc, hm⟩
    · rintro ⟨i, q, c, rfl, hc, hm⟩
      cases i with
      | zero =>
        cases hc
        exact .inl (List.mem_map.2 ⟨(q, a), hm, rfl⟩)
      | succ i => exact .inr ⟨i, q, c, by rw [Nat.add_assoc, Nat.add_comm 1], hc, hm⟩

theorem exists_cons_of_mem_among {x : Path × α} (h : x ∈ among f index ns) :
    ∃ i q, x.1 = i :: q ∧ index ≤ i ∧ i < index + ns.length := by
  obtain ⟨i, q, c, hp, hc, -⟩ := mem_among_iff.1 (show (x.1, x.2) ∈ _ from h)
  have hi := (List.getElem?_eq_some_iff.1 hc).1
  exact ⟨index + i, q, hp, Nat.le_add_right index i, Nat.add_lt_add_left hi index⟩

theorem ne_nil_of_mem_among {x : Path × α} (h : x ∈ among f index ns) : x.1 ≠ [] := by
  obtain ⟨i, q, he, -⟩ := exists_cons_of_mem_among h
  rw [he]
  exact List.cons_ne_nil i q

theorem nil_notMem_among {a : α} : ([], a) ∉ among f index ns := fun h =>
  ne_nil_of_mem_among h rfl

theorem cons_mem_among_iff {i : Nat} {p : Path} {a : α} :
    (i :: p, a) ∈ among f 0 ns ↔ ∃ c, ns[i]? = some c ∧ (p, a) ∈ f c := by
  rw [mem_among_iff]
  constructor
  · rintro ⟨j, q, c, he, hc, hm⟩
    cases he
    rw [Nat.zero_add]
    exact ⟨c, hc, hm⟩
  · rintro ⟨c, hc, hm⟩
    exact ⟨i, p, c, by rw [Nat.zero_add], hc, hm⟩

theorem among_append (ms : List Node) :
    among f index (ns ++ ms) = among f index ns ++ among f (index + ns.length) ms := by
  induction ns generalizing index with
  | nil => rfl
  | cons n ns ih =>
    rw [List.cons_append, among, among, ih, List.append_assoc, List.length_cons, Nat.add_assoc,
      Nat.add_comm 1]

theorem InOrder.among (h : ∀ n ∈ ns, InOrder (f n)) : InOrder (Node.among f index ns) := by
  induction ns generalizing index with
  | nil => exact .nil
  | cons n ns ih =>
    obtain ⟨hn, hns⟩ := List.forall_mem_cons.1 h
    refine List.pairwise_append.2 ⟨List.pairwise_map.2 (hn.imp fun hlt => ?_), ih hns,
      fun x hx y hy => ?_⟩
    · exact List.cons_lt_cons_iff.2 (.inr ⟨rfl, hlt⟩)
    · obtain ⟨x, -, rfl⟩ := List.mem_map.1 hx
      obtain ⟨i, q, he, hle, -⟩ := exists_cons_of_mem_among hy
      rw [he]
      exact List.cons_lt_cons_iff.2 (.inl hle)

end Among

/-! ## Nodes of a tree -/

mutual

/-- The nodes of a tree in document order, the root included, each with the path to it. -/
def positions : Node → List (Path × Node)
  | .text s => [([], .text s)]
  | .element name attributes children =>
    ([], .element name attributes children) :: positionsAmong 0 children

def positionsAmong (index : Nat) : List Node → List (Path × Node)
  | [] => []
  | n :: ns => n.positions.map (fun x => (index :: x.1, x.2)) ++ positionsAmong (index + 1) ns

end

theorem positionsAmong_eq_among (index : Nat) (ns : List Node) :
    positionsAmong index ns = among positions index ns := by
  induction ns generalizing index with
  | nil => rfl
  | cons n ns ih => rw [positionsAmong, among, ih]

theorem positions_eq (n : Node) : n.positions = ([], n) :: among positions 0 n.children := by
  cases n with
  | text s => rfl
  | element name attributes children => rw [positions, positionsAmong_eq_among]; rfl

/-- A node is listed by the path that leads to it. -/
theorem mem_positions_iff {p : Path} {n m : Node} :
    (p, m) ∈ n.positions ↔ n.get? p = some m := by
  induction p generalizing n with
  | nil => simp [positions_eq, nil_notMem_among, get?, eq_comm]
  | cons i p ih =>
    have hne : ((i :: p, m) : Path × Node) ≠ ([], n) := fun h => by cases h
    rw [positions_eq, List.mem_cons, or_iff_right hne, cons_mem_among_iff, get?,
      Option.bind_eq_some_iff]
    exact exists_congr fun c => and_congr_right fun _ => ih

/-- What there is to a node, its children aside. -/
inductive Label where
  | text (content : String)
  | element (name : String) (attributes : List (String × String))
  deriving DecidableEq, Repr

def label : Node → Label
  | .text s => .text s
  | .element name attributes _ => .element name attributes

/-- An element with its children rewritten. A text has none. -/
def withChildren? (f : List Node → List Node) : Node → Option Node
  | .element name attributes children => some (.element name attributes (f children))
  | .text _ => none

section Modify

variable {f : Node → Option Node} {p : Path} {n n' : Node}

theorem modify?_cons (f : Node → Option Node) (i : Nat) (p : Path) (name : String)
    (attributes : List (String × String)) (children : List Node) :
    (Node.element name attributes children).modify? f (i :: p) =
      (children[i]?).bind fun c => (c.modify? f p).map fun c' =>
        .element name attributes (children.set i c') := by
  rw [modify?]
  cases children[i]? with
  | none => rfl
  | some c => cases hc : c.modify? f p <;> simp [hc]

theorem modify?_eq_none_iff : n.modify? f p = none ↔ (n.get? p).bind f = none := by
  induction p generalizing n with
  | nil => rfl
  | cons i p ih =>
    cases n with
    | text s => exact iff_of_true rfl rfl
    | element name attributes children =>
      rw [modify?_cons, get?, Node.children]
      cases children[i]? with
      | none => exact iff_of_true rfl rfl
      | some c => rw [Option.bind_some, Option.map_eq_none_iff, Option.bind_some, ih]

/-- What is rewritten at a path is the node that is found there. -/
theorem get?_of_modify? (h : n.modify? f p = some n') : n'.get? p = (n.get? p).bind f := by
  induction p generalizing n n' with
  | nil => exact h.symm
  | cons i p ih =>
    cases n with
    | text s => cases h
    | element name attributes children =>
      rw [modify?_cons, Option.bind_eq_some_iff] at h
      obtain ⟨c, hc, h⟩ := h
      obtain ⟨c', hc', rfl⟩ := Option.map_eq_some_iff.1 h
      have hi := (List.getElem?_eq_some_iff.1 hc).1
      rw [get?, get?, Node.children, Node.children, List.getElem?_set_self hi, hc,
        Option.bind_some, Option.bind_some, ih hc']

/-- The nodes that are not below a path stay where they are when the one at the path is
rewritten. -/
theorem label_of_modify? (h : n.modify? f p = some n') {q : Path} (hq : ¬ p <+: q) :
    (n'.get? q).map label = (n.get? q).map label := by
  induction p generalizing n n' q with
  | nil => exact absurd List.nil_prefix hq
  | cons i p ih =>
    cases n with
    | text s => cases h
    | element name attributes children =>
      rw [modify?_cons, Option.bind_eq_some_iff] at h
      obtain ⟨c, hc, h⟩ := h
      obtain ⟨c', hc', rfl⟩ := Option.map_eq_some_iff.1 h
      cases q with
      | nil => rfl
      | cons j q =>
        rw [get?, get?, Node.children, Node.children]
        by_cases hj : i = j
        · subst hj
          have hi := (List.getElem?_eq_some_iff.1 hc).1
          rw [List.getElem?_set_self hi, hc, Option.bind_some, Option.bind_some]
          exact ih hc' fun hp => hq (List.cons_prefix_cons.2 ⟨rfl, hp⟩)
        · rw [List.getElem?_set_ne hj]

/-- Children are rewritten at a path where an element is found there, and else nothing is. -/
theorem modifyChildren_eq (f : List Node → List Node) (p : Path) (n : Node) :
    n.modifyChildren f p = (n.modify? (withChildren? f) p).getD n := by
  induction p generalizing n with
  | nil => cases n <;> rfl
  | cons i p ih =>
    cases n with
    | text s => rfl
    | element name attributes children =>
      rw [modify?_cons, modifyChildren]
      cases hc : children[i]? with
      | none => rw [List.modify_eq_self (List.getElem?_eq_none_iff.1 hc)]; rfl
      | some c =>
        rw [List.modify_eq_set, hc, Option.getD_some, Option.bind_some, ih]
        cases c.modify? (withChildren? f) p with
        | none =>
          obtain ⟨hi, rfl⟩ := List.getElem?_eq_some_iff.1 hc
          rw [Option.getD_none, List.set_getElem_self]
          rfl
        | some c' => rfl

end Modify

end FormLetter.Node
