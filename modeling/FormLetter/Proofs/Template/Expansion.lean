import FormLetter.Proofs.Engine.Substitution
import FormLetter.Proofs.Template.Part

/-!
# Expansion is what a regular template means

A run does not recurse over loops: it unrolls the first of the whole tree and starts over. On a
regular template that comes to the same, part by part: wherever parts stand, with no loop start
before them, they are `unrolled` in their order (`expand_fill_nodesOf`), and what is left is settled
at the end (`expansions_eq`).
-/

namespace FormLetter

open FormLetter.Json FormLetter.Loop

namespace Part

mutual

/-- The nodes of a part once its loops are unrolled. -/
def unrolled (engine : Engine) (ctx : Context) : Part → Except TemplateError (List Node)
  | text s => .ok [.text s]
  | element name attributes parts =>
    (unrolledAll engine ctx parts).map ([.element name attributes ·])
  | loop header _ body _ => (engine.output header (nodesOf body) ctx).map ([.fragment ·])

def unrolledAll (engine : Engine) (ctx : Context) : List Part → Except TemplateError (List Node)
  | [] => .ok []
  | p :: ps => do
    let ns ← unrolled engine ctx p
    return ns ++ (← unrolledAll engine ctx ps)

end

section Unrolling

variable {engine : Engine} {ctx : Context}

mutual

/-- No loop starts in what is unrolled. -/
theorem noStart_unrolled {parent name : String} (index : Nat)
    (hs : Node.isSelected engine.layout.textContainer (some name) =
      Node.isSelected engine.layout.textContainer (some parent)) {ns : List Node} :
    (p : Part) → p.Regular engine.layout parent → p.unrolled engine ctx = .ok ns →
      NoStart (Node.childTexts engine.layout.textContainer name index ns)
  | text s, h, hu => by
    cases hu
    intro x hx
    rw [Node.childTexts, if_neg (by simp [Node.isFragment, Node.isElement, Node.name?]),
      Node.textsUnder, hs] at hx
    split at hx
    · simp only [List.map_cons, List.map_nil, Node.childTexts, List.append_nil,
        List.mem_singleton] at hx
      rw [hx]
      exact (h ‹_›).1
    · cases hx
  | element name' attributes parts, h, hu => by
    obtain ⟨ms, hm, rfl⟩ := Except.map_eq_ok.1 hu
    rw [Node.childTexts, Node.isFragment_eq_false h.1, Node.childTexts, List.append_nil]
    exact (noStart_unrolledAll 0 rfl parts h.2 hm).map fun _ => rfl
  | loop header first body last, h, hu => by
    obtain ⟨ms, -, rfl⟩ := Except.map_eq_ok.1 hu
    rw [Node.childTexts, Node.isFragment_fragment]
    exact noStart_nil

theorem noStart_unrolledAll {parent name : String} (index : Nat)
    (hs : Node.isSelected engine.layout.textContainer (some name) =
      Node.isSelected engine.layout.textContainer (some parent)) {ns : List Node} :
    (ps : List Part) → AllRegular engine.layout parent ps → unrolledAll engine ctx ps = .ok ns →
      NoStart (Node.childTexts engine.layout.textContainer name index ns)
  | [], _, hu => by
    cases hu
    exact noStart_nil
  | p :: ps, h, hu => by
    obtain ⟨ns', hn, hu⟩ := Except.bind_eq_ok.1 hu
    obtain ⟨ms, hm, hu⟩ := Except.bind_eq_ok.1 hu
    cases hu
    rw [Node.childTexts_append]
    exact (noStart_unrolled index hs p h.1 hn).append (noStart_unrolledAll _ hs ps h.2 hm)

end

theorem container_ne_name {container : Option String} {parent name : String}
    (hs : Node.isSelected container (some name) = Node.isSelected container (some parent))
    (hc : container ≠ some parent) : container ≠ some name := by
  rintro rfl
  simp [Node.isSelected] at hs
  exact hc (congrArg some hs.symm)

mutual

/-- A part of a tree in which no loop starts before it is unrolled first. -/
theorem expand_fill_nodes {parent : String} (place : Place) (before : List Node)
    (hv : place.Visible)
    (hl : NoStart (place.leading engine.layout.textContainer))
    (hb : NoStart (Node.childTexts engine.layout.textContainer place.name 0 before))
    (hp : place.path = [] ∨ place.name = parent)
    (hs : Node.isSelected engine.layout.textContainer (some place.name) =
      Node.isSelected engine.layout.textContainer (some parent)) (after : List Node) :
    (p : Part) → p.Regular engine.layout parent →
      engine.expand (place.fill (before ++ (p.nodes ++ after))) ctx =
        p.unrolled engine ctx >>= fun ns => engine.expand (place.fill (before ++ (ns ++ after))) ctx
  | text s, _ => rfl
  | element name attributes parts, h => by
    have ih := expand_fill_nodesOf (.inside place before name attributes after) [] ⟨hv, h.1⟩
      (hl.append (hb.map fun _ => rfl)) noStart_nil (.inr rfl) rfl [] parts h.2
    simp only [List.nil_append, List.append_nil] at ih
    rw [nodes, unrolled]
    refine ih.trans ?_
    cases unrolledAll engine ctx parts <;> rfl
  | loop header first body last, h => by
    obtain ⟨hc, hf, hlast, ho, hcl, hbody⟩ := h
    have hk : endIndex? engine.layout.textContainer 1 (nodesOf body ++ last :: after) =
        some (nodesOf body).length := by
      rw [endIndex?_nodesOf hc 0 _ body hbody, endIndex?, if_neg (by simp [hlast]),
        hcl.depthAfter?_one]
      simp
    have hsite := find?_fill hv hl hb hp hf (container_ne_name hs hc) ho hk
    rw [List.take_left' rfl] at hsite
    simp only [nodes, List.cons_append, List.append_assoc, List.nil_append]
    rw [Engine.expand_of_site hsite, unrolled]
    simp only [Site.replace_fill]
    cases engine.output header (nodesOf body) ctx <;> rfl

theorem expand_fill_nodesOf {parent : String} (place : Place) (before : List Node)
    (hv : place.Visible)
    (hl : NoStart (place.leading engine.layout.textContainer))
    (hb : NoStart (Node.childTexts engine.layout.textContainer place.name 0 before))
    (hp : place.path = [] ∨ place.name = parent)
    (hs : Node.isSelected engine.layout.textContainer (some place.name) =
      Node.isSelected engine.layout.textContainer (some parent)) (after : List Node) :
    (ps : List Part) → AllRegular engine.layout parent ps →
      engine.expand (place.fill (before ++ (nodesOf ps ++ after))) ctx =
        unrolledAll engine ctx ps >>= fun ns =>
          engine.expand (place.fill (before ++ (ns ++ after))) ctx
  | [], _ => rfl
  | p :: ps, h => by
    rw [nodesOf, List.append_assoc, expand_fill_nodes place before hv hl hb hp hs _ p h.1,
      unrolledAll]
    cases hn : unrolled engine ctx p with
    | error e => rfl
    | ok ns =>
      -- the nodes that the part has left stand before the others
      have hb' : NoStart
          (Node.childTexts engine.layout.textContainer place.name 0 (before ++ ns)) := by
        rw [Node.childTexts_append]
        exact hb.append (noStart_unrolled _ hs p h.1 hn)
      have ih := expand_fill_nodesOf place (before ++ ns) hv hl hb' hp hs after ps h.2
      simp only [List.append_assoc] at ih
      refine ih.trans ?_
      cases unrolledAll engine ctx ps with
      | error e => rfl
      | ok ms => simp only [bind, Except.bind, pure, Except.pure, List.append_assoc]

end

/-- An element of parts is expanded by unrolling them all and settling what is left. -/
theorem expand_element {parent name : String} (attributes : List (String × String))
    (hs : Node.isSelected engine.layout.textContainer (some name) =
      Node.isSelected engine.layout.textContainer (some parent)) {ps : List Part}
    (h : AllRegular engine.layout parent ps) :
    engine.expand (.element name attributes (nodesOf ps)) ctx =
      (unrolledAll engine ctx ps >>= engine.settle ctx name).map (.element name attributes) := by
  rw [show Node.element name attributes (nodesOf ps) =
      (Place.root name attributes).fill ([] ++ (nodesOf ps ++ [])) by simp [Place.fill],
    expand_fill_nodesOf (.root name attributes) [] trivial noStart_nil noStart_nil (.inl rfl) hs []
      ps h]
  simp only [List.nil_append, List.append_nil, Place.fill]
  cases hn : unrolledAll engine ctx ps with
  | error e => rfl
  | ok ns =>
    have hnone : Site.find? engine.layout (.element name attributes ns) = .ok none :=
      find?_eq_none (noStart_unrolledAll 0 hs ps h hn)
    exact (Engine.expand_of_none hnone ctx).trans (Engine.substitute_element ..)

end Unrolling

/-! ## Settling part by part -/

section Settling

variable {engine : Engine}

mutual

/-- A part means what is settled of it once it is unrolled. -/
theorem expansion_eq {parent name : String}
    (hf : engine.layout.textContainer ≠ some Node.fragmentName) (ctx : Context)
    (hs : Node.isSelected engine.layout.textContainer (some name) =
      Node.isSelected engine.layout.textContainer (some parent)) :
    (p : Part) → p.Regular engine.layout parent →
      p.expansion engine parent ctx = (p.unrolled engine ctx).map (engine.settle ctx name)
  | text s, _ => by rw [expansion, unrolled, Except.map, Engine.settle_text, hs]
  | element name' attributes parts, h => by
    rw [expansion, unrolled, expansions_eq hf ctx rfl parts h.2]
    cases unrolledAll engine ctx parts with
    | error e => rfl
    | ok ns => exact congrArg Except.ok (Engine.settle_element h.1 attributes ns).symm
  | loop header first body last, h => by
    obtain ⟨hc, -, -, -, -, hbody⟩ := h
    -- a body is expanded in a fragment, where as few texts are scanned as in the loop's parent
    have hs' : Node.isSelected engine.layout.textContainer (some Node.fragmentName) =
        Node.isSelected engine.layout.textContainer (some parent) := by
      rw [Node.isSelected_of_ne hf, Node.isSelected_of_ne hc]
    have hcopy : ∀ item,
        (expansions engine parent (Engine.itemContext header ctx item) body).result =
          (engine.expand (.fragment (nodesOf body)) (Engine.itemContext header ctx item)).map
            Node.children := by
      intro item
      rw [Node.fragment, expand_element [] hs' hbody, expansions_eq hf _ hs' body hbody,
        Staged.result]
      cases unrolledAll engine (Engine.itemContext header ctx item) body with
      | error e => rfl
      | ok ns =>
        simp only [bind, Except.bind, Except.map]
        cases engine.settle (Engine.itemContext header ctx item) Node.fragmentName ns <;> rfl
    rw [expansion, unrolled]
    simp only [hcopy]
    rw [← Engine.output]
    cases ho : engine.output header (nodesOf body) ctx with
    | error e => rfl
    | ok ns =>
      simp only [Except.map, Engine.settle_fragment, Engine.flattenChildren_output ho]

theorem expansions_eq {parent name : String}
    (hf : engine.layout.textContainer ≠ some Node.fragmentName) (ctx : Context)
    (hs : Node.isSelected engine.layout.textContainer (some name) =
      Node.isSelected engine.layout.textContainer (some parent)) :
    (ps : List Part) → AllRegular engine.layout parent ps →
      expansions engine parent ctx ps = (unrolledAll engine ctx ps).map (engine.settle ctx name)
  | [], _ => rfl
  | p :: ps, h => by
    rw [expansions, unrolledAll, expansion_eq hf ctx hs p h.1, expansions_eq hf ctx hs ps h.2]
    cases unrolled engine ctx p with
    | error e => rfl
    | ok ns =>
      cases unrolledAll engine ctx ps with
      | error e => rfl
      | ok ms =>
        simp only [Staged.append, Except.map, bind, Except.bind, pure, Except.pure,
          Engine.settle_append]

end

end Settling

end Part

namespace Template

/-- A run on a regular template makes what the template means: the same document, or the same
error. -/
theorem expand_eq_expansion {engine : Engine} {t : Template} (h : t.Regular engine.layout)
    (ctx : Context) : engine.expand t.node ctx = t.expansion engine ctx := by
  obtain ⟨hf, h⟩ := h
  cases t with
  | text s =>
    have hnone : Site.find? engine.layout (.text s) = .ok none := by
      refine find?_eq_none fun x hx => ?_
      rw [Node.texts, Node.textsUnder, Node.isSelected_none] at hx
      split at hx
      · rw [List.mem_singleton.1 hx]
        exact (h (Option.isNone_iff_eq_none.1 ‹_›)).1
      · cases hx
    rw [node, Engine.expand_of_none hnone, Engine.substitute_text, expansion]
  | element name attributes parts =>
    rw [node, Part.expand_element attributes rfl h, expansion,
      Part.expansions_eq hf ctx rfl parts h]
    cases Part.unrolledAll engine ctx parts <;> rfl

/-- Orders, each with its lines: a loop in the body of another. -/
def orders : Template :=
  let block (s : String) : Node := .element "p" [] [.text s]
  let endBlock := block "{/foreach}"
  .element "body" [] [
    .loop ⟨"orders", "order", "{foreach orders as order}"⟩ (block "{foreach orders as order}") [
      .element "p" [] [.text "{order.name}"],
      .loop ⟨"order.lines", "line", "{Foreach order.lines as line}"⟩
        (block "For all {Foreach order.lines as line}")
        [.element "p" [] [.text "{index}: {line}; "]] endBlock] endBlock,
    .element "p" [] [.text "{orders.0.name}"]]

theorem orders_expand :
    orders.Regular .html ∧
      (Engine.expand ⟨.builtin, .html⟩ orders.node
        (.ofFields [("orders", .array [.object
          [("name", .text "A"), ("lines", .array [.text "x", .text "{y}"])]])])).toOption.map
            Node.textContent = some "A0: x; 1: {y}; A" := by
  have hr : orders.Regular (Engine.mk .builtin .html).layout := by
    refine ⟨by decide, ⟨by decide, rfl, rfl,
      Opens.of_block rfl (by decide) (by decide) (by decide) _,
      Closes.of_block rfl (by decide) (by decide) _, ⟨by decide, ?_, trivial⟩,
      ⟨by decide, rfl, rfl, Opens.of_block rfl (by decide) (by decide) (by decide) _,
        Closes.of_block rfl (by decide) (by decide) _, ⟨by decide, ?_, trivial⟩, trivial⟩, trivial⟩,
      ⟨by decide, ?_, trivial⟩, trivial⟩
    all_goals exact fun _ => ⟨by decide, by decide⟩
  refine ⟨hr, ?_⟩
  rw [expand_eq_expansion hr]
  decide +kernel

end Template

end FormLetter
