import FormLetter.Tree.Basic

/-!
# The texts of a tree

`texts` lists the texts that a template is scanned for, each with its path: those outside
fragments and, if a container is given, directly in an element of that name. `editTexts` rewrites
the same texts in the same order and stops where the rewriting fails. `weight` counts the nodes
outside fragments.
-/

namespace FormLetter.Node

def isSelected (container : Option String) (parent : Option String) : Bool :=
  container.isNone || parent == container

mutual

def textsUnder (container parent : Option String) : Node → List (Path × String)
  | .text s => if isSelected container parent then [([], s)] else []
  | .element name _ children => childTexts container name 0 children

/-- The texts of children, the first of which has this index. -/
def childTexts (container : Option String) (name : String) (index : Nat) :
    List Node → List (Path × String)
  | [] => []
  | n :: ns =>
    (if n.isFragment then []
      else (textsUnder container (some name) n).map fun (path, s) => (index :: path, s)) ++
    childTexts container name (index + 1) ns

end

/-- The texts that are scanned, in document order. -/
def texts (container : Option String) (n : Node) : List (Path × String) :=
  textsUnder container none n

section Edit

variable {ε : Type} (f : String → Except ε String)

mutual

def editUnder (container parent : Option String) : Node → Node × Option ε
  | .text s =>
    if isSelected container parent then
      match f s with
      | .ok t => (.text t, none)
      | .error e => (.text s, some e)
    else (.text s, none)
  | .element name attributes children =>
    let (children, e) := editChildren container name children
    (.element name attributes children, e)

def editChildren (container : Option String) (name : String) :
    List Node → List Node × Option ε
  | [] => ([], none)
  | n :: ns =>
    if n.isFragment then
      let (ns, e) := editChildren container name ns
      (n :: ns, e)
    else
      match editUnder container (some name) n with
      | (n, some e) => (n :: ns, some e)
      | (n, none) =>
        let (ns, e) := editChildren container name ns
        (n :: ns, e)

end

/-- Rewrites the scanned texts in document order up to the first failure: the tree as far as it
was rewritten, and that failure. -/
def editTexts (container : Option String) (n : Node) : Node × Option ε :=
  editUnder f container none n

end Edit

mutual

/-- The nodes outside fragments, the root counted. -/
def weight : Node → Nat
  | .text _ => 1
  | .element _ _ children => 1 + weights children

def weights : List Node → Nat
  | [] => 0
  | n :: ns => (if n.isFragment then 0 else n.weight) + weights ns

end

theorem weight_pos (n : Node) : 0 < n.weight := by
  cases n with
  | text s => exact Nat.one_pos
  | element name attributes children => rw [weight]; exact Nat.lt_add_right _ Nat.one_pos

theorem weights_append (ns ms : List Node) : weights (ns ++ ms) = weights ns + weights ms := by
  induction ns with
  | nil => simp [weights]
  | cons n ns ih => simp only [List.cons_append, weights, ih]; omega

/-- A path that meets no fragment below the node it starts at. -/
def Visible : Path → Node → Prop
  | [], _ => True
  | i :: path, n => ∃ c, n.children[i]? = some c ∧ c.isFragment = false ∧ Visible path c

theorem Visible.of_append {p q : Path} {n : Node} (h : Visible (p ++ q) n) : Visible p n := by
  induction p generalizing n with
  | nil => trivial
  | cons i p ih =>
    obtain ⟨c, hc, hf, hv⟩ := h
    exact ⟨c, hc, hf, ih hv⟩

mutual

theorem visible_of_mem_textsUnder {container parent : Option String} {path : Path} {s : String} :
    (n : Node) → (path, s) ∈ textsUnder container parent n → Visible path n
  | .text t, h => by
    rw [textsUnder] at h
    split at h
    · simp only [List.mem_singleton, Prod.mk.injEq] at h
      rw [h.1]
      trivial
    · cases h
  | .element name _ children, h => by
    rw [textsUnder] at h
    obtain ⟨i, q, c, rfl, hc, hf, hv⟩ := visible_of_mem_childTexts children h
    exact ⟨c, by simpa [Node.children] using hc, hf, hv⟩

theorem visible_of_mem_childTexts {container : Option String} {name : String} {index : Nat}
    {path : Path} {s : String} :
    (ns : List Node) → (path, s) ∈ childTexts container name index ns →
      ∃ i q c, path = (index + i) :: q ∧ ns[i]? = some c ∧ c.isFragment = false ∧ Visible q c
  | [], h => by simp [childTexts] at h
  | n :: ns, h => by
    rw [childTexts, List.mem_append] at h
    rcases h with h | h
    · split at h
      · cases h
      · rename_i hf
        obtain ⟨⟨q, t⟩, hm, he⟩ := List.mem_map.1 h
        cases he
        exact ⟨0, q, n, by simp, by simp, by simpa using hf, visible_of_mem_textsUnder n hm⟩
    · obtain ⟨i, q, c, rfl, hc, hf, hv⟩ := visible_of_mem_childTexts ns h
      exact ⟨i + 1, q, c, by simp; omega, by simpa using hc, hf, hv⟩

end

theorem visible_of_mem_texts {container : Option String} {path : Path} {s : String} {n : Node}
    (h : (path, s) ∈ n.texts container) : Visible path n :=
  visible_of_mem_textsUnder n h

theorem isFragment_modifyChildren (f : List Node → List Node) (path : Path) (n : Node) :
    (modifyChildren f path n).isFragment = n.isFragment := by
  cases n <;> cases path <;> rfl

theorem weights_modify_lt {ns : List Node} {i : Nat} {c : Node} {g : Node → Node}
    (hc : ns[i]? = some c) (hf : c.isFragment = false) (hg : (g c).isFragment = false)
    (hlt : (g c).weight < c.weight) : weights (ns.modify i g) < weights ns := by
  induction ns generalizing i with
  | nil => simp at hc
  | cons n ns ih =>
    cases i with
    | zero =>
      simp only [List.getElem?_cons_zero, Option.some.injEq] at hc
      subst hc
      simp only [List.modify_zero_cons, weights, hf, hg]
      simp only [Bool.false_eq_true, ↓reduceIte]
      omega
    | succ i =>
      simp only [List.getElem?_cons_succ] at hc
      have := ih hc
      simp only [List.modify_succ_cons, weights]
      omega

/-- A visible node is no heavier than the root. -/
theorem weight_le_of_get? {p : Path} {n m : Node} (hv : Visible p n) (h : n.get? p = some m) :
    m.weight ≤ n.weight := by
  induction p generalizing n with
  | nil => simp only [get?, Option.some.injEq] at h; simp [h]
  | cons i p ih =>
    obtain ⟨c, hc, hf, hv⟩ := hv
    simp only [get?, hc, Option.bind_some] at h
    have hm := ih hv h
    cases n with
    | text s => simp [children] at hc
    | element name attributes cs =>
      simp only [children] at hc
      have : c.weight ≤ weights cs := by
        clear ih h hm hv
        induction cs generalizing i with
        | nil => simp at hc
        | cons x xs ihx =>
          cases i with
          | zero =>
            simp only [List.getElem?_cons_zero, Option.some.injEq] at hc
            subst hc
            simp [weights, hf]
          | succ i =>
            simp only [List.getElem?_cons_succ] at hc
            have := ihx i hc
            simp only [weights]
            omega
      simp only [weight]
      omega

/-- Rewriting the children of a visible element so that they weigh less makes the tree weigh
less. -/
theorem weight_modifyChildren_lt {f : List Node → List Node} {p : Path} {n m : Node}
    (hv : Visible p n) (h : n.get? p = some m) (hlt : weights (f m.children) < weights m.children) :
    (n.modifyChildren f p).weight < n.weight := by
  induction p generalizing n with
  | nil =>
    simp only [get?, Option.some.injEq] at h
    subst h
    cases n with
    | text s => exact absurd hlt (by simp [children, weights])
    | element name attributes cs =>
      simp only [children] at hlt
      simp only [modifyChildren, weight]
      omega
  | cons i p ih =>
    obtain ⟨c, hc, hf, hv⟩ := hv
    simp only [get?, hc, Option.bind_some] at h
    have hm := ih hv h
    cases n with
    | text s => simp [children] at hc
    | element name attributes cs =>
      simp only [children] at hc
      have := weights_modify_lt (g := modifyChildren f p) hc hf
        (by rw [isFragment_modifyChildren]; exact hf) hm
      simp only [modifyChildren, weight]
      omega

end FormLetter.Node
