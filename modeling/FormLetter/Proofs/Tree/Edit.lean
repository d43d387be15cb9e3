import FormLetter.Proofs.Failure
import FormLetter.Tree.Texts

/-!
# Rewriting texts

`editTexts` and `texts` go over the same texts in the same order: the failure of the rewriting is
that of the first text that fails (`editTexts_snd`), and without one each text has become what it
was rewritten to (`childTexts_editChildren`).
-/

namespace FormLetter.Node

section Edit

variable {ε : Type} (f : String → Except ε String)

def failure? (s : String) : Option ε :=
  match f s with
  | .ok _ => none
  | .error e => some e

theorem failure?_eq (s : String) : failure? f s = Except.error? (f s) := by
  rw [failure?]
  cases f s <;> rfl

theorem isFragment_editUnder (container parent : Option String) (n : Node) :
    (editUnder f container parent n).1.isFragment = n.isFragment := by
  cases n with
  | text s =>
    rw [editUnder]
    split
    · cases f s <;> rfl
    · rfl
  | element name attributes children => rfl

theorem editChildren_append (container : Option String) (name : String) (ns ms : List Node) :
    editChildren f container name (ns ++ ms) =
      match editChildren f container name ns with
      | (ns, some e) => (ns ++ ms, some e)
      | (ns, none) =>
        let (ms, e) := editChildren f container name ms
        (ns ++ ms, e) := by
  induction ns with
  | nil => rfl
  | cons n ns ih =>
    rw [List.cons_append, editChildren, editChildren, ih]
    obtain ⟨ns', e⟩ := editChildren f container name ns
    split
    · cases e <;> rfl
    · obtain ⟨n', e'⟩ := editUnder f container (some name) n
      cases e' <;> cases e <;> rfl

mutual

theorem editUnder_snd (container parent : Option String) : (n : Node) →
    (editUnder f container parent n).2 =
      (textsUnder container parent n).findSome? fun x => failure? f x.2
  | text s => by
    rw [editUnder, textsUnder]
    split
    · rw [List.findSome?_singleton, failure?]
      cases f s <;> rfl
    · rfl
  | element name attributes children => editChildren_snd container name 0 children

theorem editChildren_snd (container : Option String) (name : String) (index : Nat) :
    (ns : List Node) → (editChildren f container name ns).2 =
      (childTexts container name index ns).findSome? fun x => failure? f x.2
  | [] => rfl
  | n :: ns => by
    have hn := editUnder_snd container (some name) n
    have hns := editChildren_snd container name (index + 1) ns
    rw [editChildren, childTexts, List.findSome?_append, ← hns]
    by_cases hf : n.isFragment = true
    · rw [if_pos hf, if_pos hf]
      rfl
    · rw [if_neg hf, if_neg hf, List.findSome?_map]
      simp only [Function.comp_def, ← hn]
      obtain ⟨n', e⟩ := editUnder f container (some name) n
      cases e <;> rfl

end

/-- The failure of a rewriting is that of the first text that cannot be rewritten. -/
theorem editTexts_snd (container : Option String) (n : Node) :
    (editTexts f container n).2 = (n.texts container).findSome? fun x => failure? f x.2 :=
  editUnder_snd f container none n

/-- Rewritings that fail alike text by text fail alike. -/
theorem findSome?_failure?_congr {f g : String → Except ε String} {xs : List (Path × String)}
    (h : ∀ x ∈ xs, (f x.2).map (fun _ => ()) = (g x.2).map fun _ => ()) :
    (xs.findSome? fun x => failure? f x.2) = xs.findSome? fun x => failure? g x.2 := by
  induction xs with
  | nil => rfl
  | cons x xs ih =>
    have hx := h x (List.mem_cons_self ..)
    have hfailure : failure? f x.2 = failure? g x.2 := by
      rw [failure?, failure?]
      cases hf : f x.2 with
      | ok s =>
        cases hg : g x.2 with
        | ok t => rfl
        | error e =>
          rw [hf, hg] at hx
          cases hx
      | error e =>
        cases hg : g x.2 with
        | ok t =>
          rw [hf, hg] at hx
          cases hx
        | error e' =>
          rw [hf, hg] at hx
          exact congrArg some (Except.error.inj hx)
    rw [List.findSome?_cons, List.findSome?_cons, hfailure,
      ih fun y hy => h y (List.mem_cons_of_mem _ hy)]

mutual

theorem textsUnder_editUnder (container parent : Option String) :
    (n : Node) → (editUnder f container parent n).2 = none →
      (textsUnder container parent (editUnder f container parent n).1).map
          (fun x => (x.1, Except.ok x.2)) =
        (textsUnder container parent n).map fun x => (x.1, f x.2)
  | text s, h => by
    rw [editUnder] at h ⊢
    by_cases hs : isSelected container parent = true
    · rw [if_pos hs] at h ⊢
      cases hr : f s with
      | error e => rw [hr] at h; cases h
      | ok t => simp [textsUnder, hs, hr]
    · rw [if_neg hs]
      simp [textsUnder, hs]
  | element name attributes children, h => childTexts_editChildren container name 0 children h

theorem childTexts_editChildren (container : Option String) (name : String) (index : Nat) :
    (ns : List Node) → (editChildren f container name ns).2 = none →
      (childTexts container name index (editChildren f container name ns).1).map
          (fun x => (x.1, Except.ok x.2)) =
        (childTexts container name index ns).map fun x => (x.1, f x.2)
  | [], _ => rfl
  | n :: ns, h => by
    have hn := textsUnder_editUnder container (some name) n
    have hns := childTexts_editChildren container name (index + 1) ns
    have hf' := isFragment_editUnder f container (some name) n
    rw [editChildren] at h ⊢
    by_cases hf : n.isFragment = true
    · rw [if_pos hf] at h ⊢
      simp only [childTexts, hf, ↓reduceIte, List.nil_append]
      exact hns h
    · rw [if_neg hf] at h ⊢
      generalize editUnder f container (some name) n = r at h hn hf' ⊢
      obtain ⟨n', e⟩ := r
      cases e with
      | some e => cases h
      | none =>
        simp only [Bool.not_eq_true] at hf hf'
        have hm := congrArg (List.map fun x => (index :: x.1, x.2)) (hn rfl)
        simp only [List.map_map] at hm
        simp only [childTexts, hf, hf', Bool.false_eq_true, ↓reduceIte, List.map_append,
          List.map_map, hns h]
        exact congrArg (· ++ _) hm

end

end Edit

end FormLetter.Node
