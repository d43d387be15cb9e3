import FormLetter.Proofs.Tree.Mapping
import FormLetter.Proofs.Tree.Scanning

/-!
# Visiting texts

A visitor is called on one text after another. It may rewrite the text and keep a state of its own,
and it may fail, also after it has rewritten the text. A visit of a tree (`visitTexts`) is a run of
the visitor over the texts that are scanned, in the order in which they are listed, and nothing but
those it was called on is changed (`visitTexts_eq`). `editTexts` is the visit of a rewriting that
has no state (`visitTexts_ofExcept`).
-/

namespace FormLetter

/-- What is made of a text, how that failed if it did, and the state afterwards. -/
abbrev Visitor (σ ε : Type) := String → σ → String × Option ε × σ

namespace Visitor

variable {σ ε : Type}

/-- A rewriting without a state leaves a text alone if it fails. -/
def ofExcept (f : String → Except ε String) : Visitor Unit ε := fun s _ =>
  match f s with
  | .ok t => (t, none, ())
  | .error e => (s, some e, ())

/-- Calls a visitor on one text after another up to and including the first that it fails on: the
texts that it was called on as it left them, the failure, and the state at the end. -/
def run (v : Visitor σ ε) : List (Path × String) → σ → List (Path × String) × Option ε × σ
  | [], st => ([], none, st)
  | (p, s) :: xs, st =>
    match v s st with
    | (t, some e, st) => ([(p, t)], some e, st)
    | (t, none, st) =>
      let (ts, e, st) := run v xs st
      ((p, t) :: ts, e, st)

variable (v : Visitor σ ε)

theorem run_map (f : Path → Path) (xs : List (Path × String)) (st : σ) :
    v.run (xs.map fun x => (f x.1, x.2)) st =
      ((v.run xs st).1.map (fun x => (f x.1, x.2)), (v.run xs st).2) := by
  induction xs generalizing st with
  | nil => rfl
  | cons x xs ih =>
    rw [List.map_cons, run, run]
    obtain ⟨t, e, st⟩ := v x.2 st
    cases e with
    | some e => rfl
    | none => simp only [ih, List.map_cons]

/-- A visitor that fails on the first texts is not called on the others. -/
theorem run_append (xs ys : List (Path × String)) (st : σ) :
    v.run (xs ++ ys) st =
      match v.run xs st with
      | (ts, some e, st) => (ts, some e, st)
      | (ts, none, st) => (ts ++ (v.run ys st).1, (v.run ys st).2) := by
  induction xs generalizing st with
  | nil => rfl
  | cons x xs ih =>
    rw [List.cons_append, run, run]
    obtain ⟨t, e, st⟩ := v x.2 st
    cases e with
    | some e => rfl
    | none =>
      simp only [ih]
      obtain ⟨ts, e, st⟩ := v.run xs st
      cases e <;> rfl

/-- The texts that a visitor was called on are the first ones. -/
theorem run_paths (xs : List (Path × String)) (st : σ) :
    (v.run xs st).1.map (·.1) <+: xs.map (·.1) := by
  induction xs generalizing st with
  | nil => exact List.prefix_refl _
  | cons x xs ih =>
    rw [run]
    obtain ⟨t, e, st⟩ := v x.2 st
    cases e with
    | some e => exact List.cons_prefix_cons.2 ⟨rfl, List.nil_prefix⟩
    | none => exact List.cons_prefix_cons.2 ⟨rfl, ih st⟩

end Visitor

/-- The text at a path as it was written, or else as it is. -/
def written (ts : List (Path × String)) (p : Path) (s : String) : String := (ts.lookup p).getD s

theorem lookup_map_cons (ts : List (Path × String)) (index : Nat) (p : Path) :
    (ts.map fun x => (index :: x.1, x.2)).lookup (index :: p) = ts.lookup p := by
  induction ts with
  | nil => rfl
  | cons x ts ih =>
    obtain ⟨q, t⟩ := x
    rw [List.map_cons, List.lookup_cons, List.lookup_cons, ih]
    by_cases h : p = q
    · simp [h]
    · simp [beq_eq_false_iff_ne.2 h]

theorem lookup_eq_none_of_ne {ts : List (Path × String)} {p : Path} (h : ∀ x ∈ ts, x.1 ≠ p) :
    ts.lookup p = none :=
  List.lookup_eq_none_iff.2 fun x hx => bne_iff_ne.2 (h x hx).symm

/-- What was written below a child and then below later ones, written back. -/
theorem Node.mapAllTexts_written (index : Nat) (ts : List (Path × String))
    {us : List (Path × String)} (hus : ∀ x ∈ us, ∃ i q, x.1 = i :: q ∧ index < i) (n : Node)
    (ns : List Node) :
    mapAllTexts (written (ts.map (fun x => (index :: x.1, x.2)) ++ us)) index (n :: ns) =
      n.mapTexts (written ts) :: mapAllTexts (written us) (index + 1) ns := by
  rw [mapAllTexts]
  congr 1
  · refine congrArg n.mapTexts (funext fun p => funext fun s => ?_)
    have hnone : us.lookup (index :: p) = none := lookup_eq_none_of_ne fun x hx he => by
      obtain ⟨i, q, hi, hlt⟩ := hus x hx
      cases hi.symm.trans he
      exact Nat.lt_irrefl _ hlt
    rw [written, List.lookup_append, hnone, Option.or_none, lookup_map_cons, written]
  · refine mapAllTexts_congr fun i p s hi => ?_
    have hnone : (ts.map fun x => (index :: x.1, x.2)).lookup (i :: p) = none :=
      lookup_eq_none_of_ne fun x hx he => by
        obtain ⟨y, -, rfl⟩ := List.mem_map.1 hx
        cases he
        exact Nat.lt_irrefl _ hi
    rw [written, List.lookup_append, hnone, Option.none_or, written]

/-! ## The visit of a tree -/

namespace Node

section Visit

variable {σ ε : Type} (v : Visitor σ ε)

mutual

def visitUnder (container parent : Option String) : Node → σ → Node × Option ε × σ
  | .text s, st =>
    if isSelected container parent then
      let (t, e, st) := v s st
      (.text t, e, st)
    else (.text s, none, st)
  | .element name attributes children, st =>
    let (children, e, st) := visitChildren container name children st
    (.element name attributes children, e, st)

def visitChildren (container : Option String) (name : String) :
    List Node → σ → List Node × Option ε × σ
  | [], st => ([], none, st)
  | n :: ns, st =>
    if n.isFragment then
      let (ns, e, st) := visitChildren container name ns st
      (n :: ns, e, st)
    else
      match visitUnder container (some name) n st with
      | (n, some e, st) => (n :: ns, some e, st)
      | (n, none, st) =>
        let (ns, e, st) := visitChildren container name ns st
        (n :: ns, e, st)

end

/-- Visits the scanned texts of a tree up to the first on which the visitor fails: the tree as the
visitor left it, the failure and the last state. -/
def visitTexts (container : Option String) (n : Node) (st : σ) : Node × Option ε × σ :=
  visitUnder v container none n st

variable {v}

theorem exists_cons_of_mem_run {container : Option String} {name : String} {index : Nat}
    {ns : List Node} {st : σ} {x : Path × String}
    (h : x ∈ (v.run (childTexts container name index ns) st).1) :
    ∃ i q, x.1 = i :: q ∧ index ≤ i := by
  have hpath := (v.run_paths _ _).subset (List.mem_map_of_mem h)
  obtain ⟨y, hy, he⟩ := List.mem_map.1 hpath
  rw [childTexts_eq_among] at hy
  obtain ⟨i, q, hi, hle, -⟩ := exists_cons_of_mem_among hy
  exact ⟨i, q, he.symm.trans hi, hle⟩

variable (v)

mutual

theorem visitUnder_eq (container parent : Option String) : (n : Node) → (st : σ) →
    visitUnder v container parent n st =
      (n.mapTexts (written (v.run (textsUnder container parent n) st).1),
        (v.run (textsUnder container parent n) st).2)
  | .text s, st => by
    rw [visitUnder, textsUnder, mapTexts]
    by_cases hs : isSelected container parent = true
    · rw [if_pos hs, if_pos hs, Visitor.run]
      obtain ⟨t, e, st⟩ := v s st
      cases e <;> rfl
    · rw [if_neg hs, if_neg hs]
      rfl
  | .element name attributes children, st => by
    rw [visitUnder, textsUnder, visitChildren_eq container name 0 children st]
    rfl

theorem visitChildren_eq (container : Option String) (name : String) (index : Nat) :
    (ns : List Node) → (st : σ) →
    visitChildren v container name ns st =
      (mapAllTexts (written (v.run (childTexts container name index ns) st).1) index ns,
        (v.run (childTexts container name index ns) st).2)
  | [], st => rfl
  | n :: ns, st => by
    have hlater : ∀ st, ∀ x ∈ (v.run (childTexts container name (index + 1) ns) st).1,
        ∃ i q, x.1 = i :: q ∧ index < i := fun st x hx => exists_cons_of_mem_run hx
    rw [visitChildren, childTexts]
    by_cases hf : n.isFragment = true
    · rw [if_pos hf, if_pos hf, List.nil_append, visitChildren_eq container name (index + 1) ns st]
      have hback := mapAllTexts_written index [] (hlater st) n ns
      refine Prod.ext ?_ rfl
      exact (hback.trans (congrArg (· :: _) n.mapTexts_self)).symm
    · have hrun := v.run_map (index :: ·) (textsUnder container (some name) n) st
      rw [if_neg hf, if_neg hf, visitUnder_eq container (some name) n st, v.run_append, hrun]
      obtain ⟨ts, e, st'⟩ := v.run (textsUnder container (some name) n) st
      cases e with
      | some e =>
        have hback := mapAllTexts_written index ts (List.forall_mem_nil _) n ns
        rw [List.append_nil] at hback
        refine Prod.ext ?_ rfl
        exact (hback.trans (congrArg (_ :: ·) (mapAllTexts_self _ ns))).symm
      | none =>
        simp only
        rw [visitChildren_eq container name (index + 1) ns st']
        have hback := mapAllTexts_written index ts (hlater st') n ns
        refine Prod.ext ?_ rfl
        exact hback.symm

end

/-- A visit runs the visitor over the scanned texts, and changes those it was called on. -/
theorem visitTexts_eq (container : Option String) (n : Node) (st : σ) :
    visitTexts v container n st =
      (n.mapTexts (written (v.run (n.texts container) st).1), (v.run (n.texts container) st).2) :=
  visitUnder_eq v container none n st

mutual

theorem visitUnder_ofExcept (f : String → Except ε String) (container parent : Option String) :
    (n : Node) → visitUnder (.ofExcept f) container parent n () =
      ((editUnder f container parent n).1, (editUnder f container parent n).2, ())
  | .text s => by
    rw [visitUnder, editUnder, Visitor.ofExcept]
    split
    · cases f s <;> rfl
    · rfl
  | .element name attributes children => by
    rw [visitUnder, editUnder, visitChildren_ofExcept f container name children]

theorem visitChildren_ofExcept (f : String → Except ε String) (container : Option String)
    (name : String) : (ns : List Node) → visitChildren (.ofExcept f) container name ns () =
      ((editChildren f container name ns).1, (editChildren f container name ns).2, ())
  | [] => rfl
  | n :: ns => by
    have hrest := visitChildren_ofExcept f container name ns
    rw [visitChildren, editChildren, visitUnder_ofExcept f container (some name) n]
    split
    · rw [hrest]
    · obtain ⟨n', e⟩ := editUnder f container (some name) n
      cases e with
      | some e => rfl
      | none => simp only [hrest]

end

/-- `editTexts` is the visit of a rewriting without a state. -/
theorem visitTexts_ofExcept (f : String → Except ε String) (container : Option String) (n : Node) :
    visitTexts (.ofExcept f) container n () =
      ((editTexts f container n).1, (editTexts f container n).2, ()) :=
  visitUnder_ofExcept f container none n

end Visit

/-- Reading and rewriting go over the same nodes. The texts that are listed are those that no
fragment below the root stands above and that stand directly in the container, if there is one. A
visitor, and likewise a rewriting, is called on these and in this order up to and including the
first failure, and nothing else is changed. What is rewritten at a path is what is found there. -/
theorem traversals_agree (container : Option String) (n : Node) :
    (∀ p s, (p, s) ∈ n.texts container ↔ n.get? p = some (.text s) ∧
      (∀ q m, q <+: p → q ≠ [] → n.get? q = some m → m.isFragment = false) ∧
      ∀ c, container = some c →
        p ≠ [] ∧ ∃ m, n.get? p.dropLast = some m ∧ m.isElement c = true) ∧
    (n.texts container).Pairwise (fun x y => x.1 < y.1) ∧
    (∀ {σ ε : Type} (v : Visitor σ ε) (st : σ),
      let visited := v.run (n.texts container) st
      visitTexts v container n st = (n.mapTexts (written visited.1), visited.2)) ∧
    (∀ {ε : Type} (f : String → Except ε String),
      let visited := (Visitor.ofExcept f).run (n.texts container) ()
      editTexts f container n = (n.mapTexts (written visited.1), visited.2.1)) ∧
    (∀ (f : Node → Option Node) (p : Path),
      (n.modify? f p = none ↔ (n.get? p).bind f = none) ∧
      ∀ n', n.modify? f p = some n' → n'.get? p = (n.get? p).bind f ∧
        ∀ q, ¬ p <+: q → (n'.get? q).map label = (n.get? q).map label) ∧
    ∀ (f : List Node → List Node) (p : Path),
      n.modifyChildren f p = (n.modify? (withChildren? f) p).getD n := by
  refine ⟨fun p s => mem_texts_iff, inOrder_texts container n,
    fun v st => visitTexts_eq v container n st, fun f => ?_, fun f p => ⟨modify?_eq_none_iff, ?_⟩,
    fun f p => modifyChildren_eq f p n⟩
  · have hvisit := (visitTexts_ofExcept f container n).symm.trans
      (visitTexts_eq (.ofExcept f) container n ())
    exact Prod.ext (congrArg (·.1) hvisit) (congrArg (·.2.1) hvisit)
  · exact fun n' h => ⟨get?_of_modify? h, fun q hq => label_of_modify? h hq⟩

/-- A fragment at the root is scanned, one below it is not. -/
example : (Node.fragment [.text "{a}", .fragment [.text "{b}"], .text "{c}"]).texts none =
    [([0], "{a}"), ([2], "{c}")] := by
  decide

end Node

end FormLetter
