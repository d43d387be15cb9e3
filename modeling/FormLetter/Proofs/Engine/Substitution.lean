import FormLetter.Proofs.Engine.Run
import FormLetter.Proofs.Tree.Fragment

/-!
# Substitution, child by child

`settle` is what substitution makes of a child list. It goes over the children one after the other
(`settle_append`) and takes finished output as it is (`settle_fragment`). Finished output is flat
(`flattenChildren_output`), and its texts are those of the copies of a loop body
(`exists_copy_of_mem_output`).
-/

namespace FormLetter

open FormLetter.Json FormLetter.Loop

namespace Engine

variable {engine : Engine} {ctx : Context} {parent : String}

/-- What the children of an element of the name `parent` become once tags are replaced. -/
def settle (engine : Engine) (ctx : Context) (parent : String) (ns : List Node) :
    Except TemplateError (List Node) :=
  match Node.editChildren (Tag.render engine.filters ctx) engine.layout.textContainer parent ns with
  | (ns, none) => .ok (Node.flattenChildren ns)
  | (_, some e) => .error e

theorem settle_eq_ok {ns ms : List Node} : engine.settle ctx parent ns = .ok ms ↔
    ∃ edited, Node.editChildren (Tag.render engine.filters ctx) engine.layout.textContainer parent
      ns = (edited, none) ∧ Node.flattenChildren edited = ms := by
  rw [settle]
  obtain ⟨edited, e⟩ := Node.editChildren (Tag.render engine.filters ctx)
    engine.layout.textContainer parent ns
  cases e with
  | some e =>
    constructor
    · intro h
      cases h
    · rintro ⟨_, he, -⟩
      cases he
  | none =>
    constructor
    · intro h
      exact ⟨edited, rfl, Except.ok.inj h⟩
    · rintro ⟨_, he, h⟩
      cases he
      exact congrArg Except.ok h

theorem substitute_element (engine : Engine) (ctx : Context) (name : String)
    (attributes : List (String × String)) (ns : List Node) :
    engine.substitute ctx (.element name attributes ns) =
      (engine.settle ctx name ns).map (.element name attributes) := by
  rw [substitute, settle, Node.editTexts, Node.editUnder]
  obtain ⟨ns', e⟩ := Node.editChildren (Tag.render engine.filters ctx)
    engine.layout.textContainer name ns
  cases e <;> rfl

theorem substitute_text (engine : Engine) (ctx : Context) (s : String) :
    engine.substitute ctx (.text s) =
      if engine.layout.textContainer.isNone then (Tag.render engine.filters ctx s).map .text
      else .ok (.text s) := by
  rw [substitute, Node.editTexts, Node.editUnder, Node.isSelected_none]
  by_cases hn : engine.layout.textContainer.isNone = true
  · rw [if_pos hn, if_pos hn]
    cases Tag.render engine.filters ctx s <;> rfl
  · rw [if_neg hn, if_neg hn]
    rfl

theorem settle_append (ns ms : List Node) : engine.settle ctx parent (ns ++ ms) =
    engine.settle ctx parent ns >>= fun ns' =>
      (engine.settle ctx parent ms).map (ns' ++ ·) := by
  rw [settle, settle, settle, Node.editChildren_append]
  obtain ⟨ns', e⟩ := Node.editChildren (Tag.render engine.filters ctx)
    engine.layout.textContainer parent ns
  cases e with
  | some e => rfl
  | none =>
    obtain ⟨ms', e'⟩ := Node.editChildren (Tag.render engine.filters ctx)
      engine.layout.textContainer parent ms
    cases e' with
    | some e' => rfl
    | none => exact congrArg Except.ok (Node.flattenChildren_append ns' ms')

theorem settle_text (s : String) : engine.settle ctx parent [.text s] =
    if Node.isSelected engine.layout.textContainer (some parent) then
      (Tag.render engine.filters ctx s).map ([.text ·]) else .ok [.text s] := by
  rw [settle, Node.editChildren, Node.editUnder]
  by_cases hs : Node.isSelected engine.layout.textContainer (some parent) = true
  · rw [if_pos hs, if_pos hs]
    cases Tag.render engine.filters ctx s <;> rfl
  · rw [if_neg hs, if_neg hs]
    rfl

theorem settle_element {name : String} (h : name ≠ Node.fragmentName)
    (attributes : List (String × String)) (ns : List Node) :
    engine.settle ctx parent [.element name attributes ns] =
      (engine.settle ctx name ns).map ([.element name attributes ·]) := by
  have hf := Node.isFragment_eq_false h attributes
  rw [settle, settle, Node.editChildren, if_neg (by simp [hf]), Node.editUnder]
  obtain ⟨ns', e⟩ := Node.editChildren (Tag.render engine.filters ctx)
    engine.layout.textContainer name ns
  cases e with
  | some e => rfl
  | none => simp [Node.editChildren, Node.flattenChildren, hf, Node.flatten, Except.map]

/-- Finished output is not looked at. -/
theorem settle_fragment (output : List Node) :
    engine.settle ctx parent [.fragment output] = .ok (Node.flattenChildren output) := by
  rw [settle, Node.editChildren, if_pos (Node.isFragment_fragment output)]
  simp only [Node.editChildren, Node.flattenChildren, Node.isFragment_fragment, ↓reduceIte,
    List.append_nil]
  rfl

/-! ## Documents -/

/-- The root keeps its name. -/
theorem name?_expand {root t : Node} (h : engine.expand root ctx = .ok t) :
    t.name? = root.name? := by
  induction root using run_induction engine.layout with
  | failed root e he =>
    rw [expand_of_error he] at h
    cases h
  | done root hd =>
    rw [expand_of_none hd] at h
    cases root with
    | text s =>
      rw [substitute_text] at h
      split at h
      · obtain ⟨v, -, rfl⟩ := Except.map_eq_ok.1 h
        rfl
      · cases h
        rfl
    | element name attributes ns =>
      rw [substitute_element] at h
      obtain ⟨ms, -, rfl⟩ := Except.map_eq_ok.1 h
      rfl
  | loop root site hs _ ih =>
    rw [expand_of_site hs] at h
    obtain ⟨nodes, -, h⟩ := Except.bind_eq_ok.1 h
    rw [ih nodes h, Site.replace]
    cases root <;> cases site.parent <;> rfl

theorem flatten_expand {root t : Node} (h : engine.expand root ctx = .ok t) : t.flatten = t := by
  induction root using run_induction engine.layout generalizing t with
  | failed root e he =>
    rw [expand_of_error he] at h
    cases h
  | done root hd =>
    rw [expand_of_none hd, substitute] at h
    split at h
    · cases h
      exact Node.flatten_flatten _
    · cases h
  | loop root site hs _ ih =>
    rw [expand_of_site hs] at h
    obtain ⟨nodes, -, h⟩ := Except.bind_eq_ok.1 h
    exact ih nodes h

theorem flattenChildren_children_expand {root t : Node} (h : engine.expand root ctx = .ok t) :
    Node.flattenChildren t.children = t.children := by
  have := flatten_expand h
  cases t with
  | text s => rfl
  | element name attributes ns =>
    rw [Node.flatten] at this
    exact (Node.element.inj this).2.2

theorem flattenChildren_output {header : Header} {body ns : List Node}
    (h : engine.output header body ctx = .ok ns) : Node.flattenChildren ns = ns := by
  refine output_induction (P := fun ns => Node.flattenChildren ns = ns) rfl (fun hn hm => ?_)
    (fun _ _ _ ht => flattenChildren_children_expand ht) h
  rw [Node.flattenChildren_append, hn, hm]

/-- A text in the output of a loop is in one of the copies of its body. -/
theorem exists_copy_of_mem_output {header : Header} {body nodes : List Node}
    (h : engine.output header body ctx = .ok nodes) {host s : String}
    (hs : s ∈ Node.childStrings engine.layout.textContainer host nodes) :
    ∃ item ∈ items ctx header, ∃ t,
      engine.expand (.fragment body) (itemContext header ctx item) = .ok t ∧
        s ∈ Node.childStrings engine.layout.textContainer host t.children := by
  refine output_induction (P := fun nodes => ∀ s,
    s ∈ Node.childStrings engine.layout.textContainer host nodes → ∃ item ∈ items ctx header, ∃ t,
      engine.expand (.fragment body) (itemContext header ctx item) = .ok t ∧
        s ∈ Node.childStrings engine.layout.textContainer host t.children)
    (List.forall_mem_nil _) (fun hn hm s hs => ?_)
    (fun item hi t ht s hs => ⟨item, hi, t, ht, hs⟩) h s hs
  rw [Node.childStrings_append, List.mem_append] at hs
  exact hs.elim (hn s) (hm s)

end Engine

end FormLetter
