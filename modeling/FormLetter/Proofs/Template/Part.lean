import FormLetter.Proofs.Engine.Run
import FormLetter.Proofs.Loop.Group

/-!
# Regular templates

A regular template has its loops in plain sight: every child list is a run of `Part`s, and a part is
a text, an element whose children are parts again, or a whole loop with a body of parts.
`Template.expansion` is what such a template means, by recursion over the parts. Errors come in two
stages: those of loops come before those of the texts outside of them, and each in document order.
-/

namespace FormLetter

open FormLetter.Json FormLetter.Loop

/-- A part of a regular child list. Of a loop, `first` and `last` are the nodes with its markers. -/
inductive Part where
  | text (s : String)
  | element (name : String) (attributes : List (String × String)) (parts : List Part)
  | loop (header : Header) (first : Node) (body : List Part) (last : Node)

inductive Template where
  | text (s : String)
  | element (name : String) (attributes : List (String × String)) (parts : List Part)

namespace Part

mutual

/-- The nodes that a part stands for. -/
def nodes : Part → List Node
  | text s => [.text s]
  | element name attributes parts => [.element name attributes (nodesOf parts)]
  | loop _ first body last => first :: (nodesOf body ++ [last])

def nodesOf : List Part → List Node
  | [] => []
  | p :: ps => p.nodes ++ nodesOf ps

end

mutual

/-- Whether a part can stand in an element of the name `parent`: its texts have no markers but for
those of its loops, no element is a fragment, and no loop stands in a text container. -/
def Regular (layout : Layout) (parent : String) : Part → Prop
  | text s => Node.isSelected layout.textContainer (some parent) = true → IsPlain s
  | element name _ parts => name ≠ Node.fragmentName ∧ AllRegular layout name parts
  | loop header first body last =>
    layout.textContainer ≠ some parent ∧ first.isFragment = false ∧ last.isFragment = false ∧
      Opens layout parent header first ∧ Closes layout last ∧ AllRegular layout parent body

def AllRegular (layout : Layout) (parent : String) : List Part → Prop
  | [] => True
  | p :: ps => p.Regular layout parent ∧ AllRegular layout parent ps

end

end Part

/-- What comes of some parts: first their loops are unrolled, then their texts are rendered. -/
abbrev Staged := Except TemplateError (Except TemplateError (List Node))

namespace Staged

def append (x y : Staged) : Staged := do
  let x ← x
  let y ← y
  return do return (← x) ++ (← y)

def result (x : Staged) : Except TemplateError (List Node) := x >>= id

end Staged

namespace Part

mutual

/-- What a part in an element of the name `parent` becomes. A scanned text is rendered, an element
keeps its name and attributes, and a loop becomes its body, once for each item, both stages of it
in the scope of the item. -/
def expansion (engine : Engine) (parent : String) (ctx : Context) : Part → Staged
  | text s =>
    .ok (if Node.isSelected engine.layout.textContainer (some parent) then
      (Tag.render engine.filters ctx s).map ([.text ·]) else .ok [.text s])
  | element name attributes parts =>
    (expansions engine name ctx parts).map (·.map ([.element name attributes ·]))
  | loop header _ body _ =>
    ((Engine.items ctx header).flatMapM fun item =>
      (expansions engine parent (Engine.itemContext header ctx item) body).result).map .ok

def expansions (engine : Engine) (parent : String) (ctx : Context) : List Part → Staged
  | [] => .ok (.ok [])
  | p :: ps => (expansion engine parent ctx p).append (expansions engine parent ctx ps)

end

end Part

namespace Template

def node : Template → Node
  | text s => .text s
  | element name attributes parts => .element name attributes (Part.nodesOf parts)

/-- Whether the parts are regular. Finished output is not taken for text of the template. -/
def Regular (layout : Layout) (t : Template) : Prop :=
  layout.textContainer ≠ some Node.fragmentName ∧
    match t with
    | text s => layout.textContainer = none → IsPlain s
    | element name _ parts => Part.AllRegular layout name parts

/-- What a template means in a context. -/
def expansion (engine : Engine) (ctx : Context) : Template → Except TemplateError Node
  | text s =>
    if engine.layout.textContainer.isNone then (Tag.render engine.filters ctx s).map .text
    else .ok (.text s)
  | element name attributes parts =>
    (Part.expansions engine name ctx parts).result.map (.element name attributes)

end Template

/-! ## Balance -/

namespace Part

variable {layout : Layout}

theorem nodesOf_cons_append (p : Part) (ps : List Part) (after : List Node) :
    nodesOf (p :: ps) ++ after = p.nodes ++ (nodesOf ps ++ after) := by
  rw [nodesOf, List.append_assoc]

theorem childTexts_singleton (container : Option String) (parent : String) (index : Nat) {n : Node}
    (h : n.isFragment = false) : (Node.childTexts container parent index [n]).map (·.2) =
      (Node.textsUnder container (some parent) n).map (·.2) := by
  rw [Node.childTexts, Node.childTexts, if_neg (by simp [h]), List.append_nil, List.map_map]
  rfl

mutual

/-- As many loops start as end in a part, each before it ends. -/
theorem depthAfter?_nodes {parent : String} (d index : Nat) :
    (p : Part) → p.Regular layout parent →
      depthAfter? (d + 1) ((Node.childTexts layout.textContainer parent index p.nodes).map (·.2)) =
        some (d + 1)
  | text s, h => by
    rw [nodes, childTexts_singleton _ _ _ rfl, Node.textsUnder]
    by_cases hs : Node.isSelected layout.textContainer (some parent) = true
    · rw [if_pos hs]
      exact depthAfter?_plain (by simpa using h hs) _
    · rw [if_neg hs]
      rfl
  | element name attributes parts, h => by
    have hf := Node.isFragment_eq_false h.1 attributes (nodesOf parts)
    rw [nodes, childTexts_singleton _ _ _ hf, Node.textsUnder]
    exact depthAfter?_nodesOf d 0 parts h.2
  | loop header first body last, h => by
    obtain ⟨hc, hf, hl, ho, hcl, hb⟩ := h
    rw [nodes, ← List.singleton_append, Node.childTexts_append, Node.childTexts_append,
      List.map_append, List.map_append, childTexts_singleton _ _ _ hf,
      childTexts_singleton _ _ _ hl, Node.textsUnder_eq_texts hc, Node.textsUnder_eq_texts hc,
      depthAfter?_append, ho.depthAfter?, Option.bind_some, depthAfter?_append,
      depthAfter?_nodesOf (d + 1) _ body hb, Option.bind_some, hcl.depthAfter?_add_two]

theorem depthAfter?_nodesOf {parent : String} (d index : Nat) :
    (ps : List Part) → AllRegular layout parent ps →
      depthAfter? (d + 1)
          ((Node.childTexts layout.textContainer parent index (nodesOf ps)).map (·.2)) =
        some (d + 1)
  | [], _ => rfl
  | p :: ps, h => by
    rw [nodesOf, Node.childTexts_append, List.map_append, depthAfter?_append,
      depthAfter?_nodes d index p h.1, Option.bind_some, depthAfter?_nodesOf d _ ps h.2]

end

theorem endIndex?_cons {container : Option String} {n : Node} (hf : n.isFragment = false)
    {d d' : Nat} (hd : depthAfter? d ((n.texts container).map (·.2)) = some d') (ns : List Node) :
    endIndex? container d (n :: ns) = (endIndex? container d' ns).map (· + 1) := by
  rw [endIndex?, if_neg (by simp [hf]), hd]

mutual

/-- The end of an open loop does not come within a part of its body. -/
theorem endIndex?_nodes {parent : String} (hc : layout.textContainer ≠ some parent) (d : Nat)
    (after : List Node) : (p : Part) → p.Regular layout parent →
      endIndex? layout.textContainer (d + 1) (p.nodes ++ after) =
        (endIndex? layout.textContainer (d + 1) after).map (· + p.nodes.length)
  | text s, h => by
    refine endIndex?_cons rfl ?_ after
    have := depthAfter?_nodes d 0 (text s) h
    rwa [nodes, childTexts_singleton _ _ _ rfl, Node.textsUnder_eq_texts hc] at this
  | element name attributes parts, h => by
    have hf := Node.isFragment_eq_false h.1 attributes (nodesOf parts)
    exact endIndex?_cons hf (depthAfter?_nodesOf d 0 parts h.2) after
  | loop header first body last, h => by
    obtain ⟨-, hf, hl, ho, hcl, hb⟩ := h
    rw [nodes, List.cons_append, endIndex?_cons hf (ho.depthAfter? _), List.append_assoc,
      endIndex?_nodesOf hc (d + 1) _ body hb, List.singleton_append,
      endIndex?_cons hl (hcl.depthAfter?_add_two d)]
    simp only [Option.map_map, List.length_cons, List.length_append, List.length_nil]
    refine congrArg (Option.map · _) (funext fun k => ?_)
    simp only [Function.comp_apply]
    omega

theorem endIndex?_nodesOf {parent : String} (hc : layout.textContainer ≠ some parent) (d : Nat)
    (after : List Node) : (ps : List Part) → AllRegular layout parent ps →
      endIndex? layout.textContainer (d + 1) (nodesOf ps ++ after) =
        (endIndex? layout.textContainer (d + 1) after).map (· + (nodesOf ps).length)
  | [], _ => by simp [nodesOf]
  | p :: ps, h => by
    rw [nodesOf_cons_append, endIndex?_nodes hc d _ p h.1, endIndex?_nodesOf hc d _ ps h.2,
      Option.map_map, nodesOf, List.length_append]
    refine congrArg (Option.map · _) (funext fun k => ?_)
    simp only [Function.comp_apply]
    omega

end

end Part

end FormLetter
