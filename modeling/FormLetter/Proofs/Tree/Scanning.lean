import FormLetter.Proofs.Tree.Place

/-!
# Which texts are scanned

A text is scanned if no fragment stands above it, the root aside, and, where there is a container,
it stands directly in an element of that name (`mem_texts_iff`). Scanned texts are listed in order
(`inOrder_texts`).
-/

namespace FormLetter.Node

/-- The name of the element directly above the node at a path, where the root has a parent of the
name `parent`. -/
def parentName? (parent : Option String) (n : Node) (p : Path) : Option String :=
  if p = [] then parent else (n.get? p.dropLast).bind name?

theorem parentName?_cons {n c : Node} {i : Nat} (hc : n.children[i]? = some c)
    (parent : Option String) (p : Path) :
    parentName? parent n (i :: p) = parentName? n.name? c p := by
  rw [parentName?, if_neg (List.cons_ne_nil i p), parentName?]
  cases p with
  | nil => rfl
  | cons j p =>
    rw [if_neg (List.cons_ne_nil j p), List.dropLast_cons_of_ne_nil (List.cons_ne_nil j p), get?,
      hc, Option.bind_some]

/-- A path below a node on which no fragment stands is visible. -/
theorem visible_iff {p : Path} {n m : Node} (h : n.get? p = some m) :
    Visible p n ↔ ∀ q k, q <+: p → q ≠ [] → n.get? q = some k → k.isFragment = false := by
  induction p generalizing n with
  | nil => exact iff_of_true trivial fun q k hq hne => absurd (List.prefix_nil.1 hq) hne
  | cons i p ih =>
    obtain ⟨c, hc, hm⟩ := Option.bind_eq_some_iff.1 h
    have hbelow : ∀ q, n.get? (i :: q) = c.get? q := fun q => by rw [get?, hc, Option.bind_some]
    constructor
    · rintro ⟨c', hc', hf, hv⟩ q k hq hne hk
      cases hc.symm.trans hc'
      cases q with
      | nil => exact absurd rfl hne
      | cons j q =>
        obtain ⟨rfl, hqp⟩ := List.cons_prefix_cons.1 hq
        rw [hbelow] at hk
        cases q with
        | nil => cases hk; exact hf
        | cons j q => exact (ih hm).1 hv _ k hqp (List.cons_ne_nil j q) hk
    · intro hall
      refine ⟨c, hc, hall [i] c (List.prefix_append [i] p) (List.cons_ne_nil i []) (hbelow []),
        (ih hm).2 fun q k hq _ hk => ?_⟩
      exact hall (i :: q) k (List.cons_prefix_cons.2 ⟨rfl, hq⟩) (List.cons_ne_nil i q)
        ((hbelow q).trans hk)

section Members

variable {container parent : Option String} {p : Path} {s : String} {n : Node}

theorem cons_mem_textsUnder_iff {i : Nat} :
    (i :: p, s) ∈ textsUnder container parent n ↔ ∃ c, n.children[i]? = some c ∧
      c.isFragment = false ∧ (p, s) ∈ textsUnder container n.name? c := by
  cases n with
  | text t =>
    rw [textsUnder]
    split <;> simp [children]
  | element name attributes children =>
    rw [textsUnder, childTexts_eq_among, cons_mem_among_iff]
    refine exists_congr fun c => and_congr_right fun _ => ?_
    cases c.isFragment <;> simp [name?]

theorem mem_textsUnder_iff :
    (p, s) ∈ textsUnder container parent n ↔
      n.get? p = some (.text s) ∧ Visible p n ∧
        isSelected container (parentName? parent n p) = true := by
  induction p generalizing n parent with
  | nil =>
    cases n with
    | text t =>
      rw [textsUnder, parentName?, if_pos rfl]
      by_cases hs : isSelected container parent = true
      · simp [hs, get?, Visible, eq_comm]
      · simp [hs]
    | element name attributes children =>
      rw [textsUnder, childTexts_eq_among]
      exact iff_of_false nil_notMem_among fun h => by cases h.1
  | cons i p ih =>
    rw [cons_mem_textsUnder_iff]
    constructor
    · rintro ⟨c, hc, hf, hm⟩
      obtain ⟨hg, hv, hs⟩ := ih.1 hm
      exact ⟨by rw [get?, hc, Option.bind_some, hg], ⟨c, hc, hf, hv⟩,
        by rw [parentName?_cons hc, hs]⟩
    · rintro ⟨hg, ⟨c, hc, hf, hv⟩, hs⟩
      rw [get?, hc, Option.bind_some] at hg
      rw [parentName?_cons hc] at hs
      exact ⟨c, hc, hf, ih.2 ⟨hg, hv, hs⟩⟩

theorem isSelected_parentName?_iff :
    isSelected container (parentName? none n p) = true ↔
      ∀ c, container = some c →
        p ≠ [] ∧ ∃ m, n.get? p.dropLast = some m ∧ m.isElement c = true := by
  cases container with
  | none => exact iff_of_true rfl fun c hc => by cases hc
  | some c =>
    simp only [isSelected, Option.isNone_some, Bool.false_or, beq_iff_eq, Option.some.injEq,
      forall_eq', isElement]
    by_cases hp : p = []
    · simp [parentName?, hp]
    · rw [parentName?, if_neg hp, Option.bind_eq_some_iff]
      exact (and_iff_right hp).symm

/-- Which texts are scanned, and by which paths. -/
theorem mem_texts_iff :
    (p, s) ∈ n.texts container ↔ n.get? p = some (.text s) ∧
      (∀ q m, q <+: p → q ≠ [] → n.get? q = some m → m.isFragment = false) ∧
      ∀ c, container = some c →
        p ≠ [] ∧ ∃ m, n.get? p.dropLast = some m ∧ m.isElement c = true := by
  rw [texts, mem_textsUnder_iff, isSelected_parentName?_iff]
  exact and_congr_right fun h => and_congr_left fun _ => visible_iff h

end Members

theorem inOrder_textsUnder (container parent : Option String) (n : Node) :
    InOrder (textsUnder container parent n) := by
  induction n using Node.induction generalizing parent with
  | text s =>
    rw [textsUnder]
    split
    · exact List.pairwise_singleton _ _
    · exact .nil
  | element name attributes children ih =>
    rw [textsUnder, childTexts_eq_among]
    refine InOrder.among fun c hc => ?_
    split
    · exact .nil
    · exact ih c hc (some name)

/-- Scanned texts are listed by their paths, in order. -/
theorem inOrder_texts (container : Option String) (n : Node) : InOrder (n.texts container) :=
  inOrder_textsUnder container none n

end FormLetter.Node
