import FormLetter.Loop.Site
import FormLetter.Tag.Evaluation

/-!
# Expansion of templates

An `Engine` has filters and a layout. `expand` makes a document of a template tree and data: it
unrolls loops, first loop first, until none is left, and then replaces the tags. A loop is
replaced by one copy of its body for each item, each expanded in a scope that gives the item its
name and its key the name `index`. Output of a loop is put into a fragment and not looked at
again, so that data is never read as template.
-/

namespace FormLetter

open FormLetter.Json FormLetter.Loop

/-- What templates are expanded with. -/
structure Engine where
  filters : Registry := .builtin
  layout : Layout := {}

namespace Engine

/-- The name that a loop gives to the key of its item. -/
def indexBinding : String := "index"

/-- What a loop binds for an item. -/
def bindings (name : String) : Value × Value → List (String × Value)
  | (key, item) => [(name, item), (indexBinding, key)]

/-- The output of `body` for each of the items in turn, up to the first error, and the context at
the end. -/
def forItems {ε : Type} (name : String) (body : Context → Except ε (List Node) × Context) :
    List (Value × Value) → Context → Except ε (List Node) × Context
  | [], ctx => (.ok [], ctx)
  | item :: items, ctx =>
    match ctx.within (bindings name item) body with
    | (.error e, ctx) => (.error e, ctx)
    | (.ok output, ctx) =>
      let (others, ctx) := forItems name body items ctx
      (others.map (output ++ ·), ctx)

/-- The items of a loop in a context. -/
def items (ctx : Context) (header : Header) : List (Value × Value) :=
  ((ctx.lookup header.collection).map Value.pairs).getD []

/-- The tree with its tags replaced and its fragments dissolved. -/
def substitute (engine : Engine) (ctx : Context) (root : Node) : Except TemplateError Node :=
  match root.editTexts (Tag.render engine.filters ctx) engine.layout.textContainer with
  | (tree, none) => .ok tree.flatten
  | (_, some e) => .error e

/-- The expansion of a tree, and the context at the end. -/
def expandIn (engine : Engine) (root : Node) (ctx : Context) :
    Except TemplateError Node × Context :=
  match _ : Site.find? engine.layout root with
  | .error e => (.error e, ctx)
  | .ok none => (engine.substitute ctx root, ctx)
  | .ok (some site) =>
    let copy (ctx : Context) : Except TemplateError (List Node) × Context :=
      let (result, ctx) := engine.expandIn (.fragment site.body) ctx
      (result.map Node.children, ctx)
    match forItems site.header.binding copy (items ctx site.header) ctx with
    | (.error e, ctx) => (.error e, ctx)
    | (.ok output, ctx) => engine.expandIn (site.replace output root) ctx
termination_by root.weight
decreasing_by
  · exact (Site.find?_of ‹_›).weight_body_lt
  · exact (Site.find?_of ‹_›).weight_replace_lt output

/-- The output of a loop body for one item. -/
def copyOf (engine : Engine) (body : List Node) (ctx : Context) :
    Except TemplateError (List Node) × Context :=
  let (result, ctx) := engine.expandIn (.fragment body) ctx
  (result.map Node.children, ctx)

/-- Unrolls the first loop: the tree with its output, none if there is no loop, and the context
at the end. -/
def unroll (engine : Engine) (root : Node) (ctx : Context) :
    Except TemplateError (Option Node) × Context :=
  match Site.find? engine.layout root with
  | .error e => (.error e, ctx)
  | .ok none => (.ok none, ctx)
  | .ok (some site) =>
    let (output, ctx) :=
      forItems site.header.binding (engine.copyOf site.body) (items ctx site.header) ctx
    (output.map fun output => some (site.replace output root), ctx)

/-- Expansion unrolls loops until there is none and then replaces tags. -/
theorem expandIn_eq (engine : Engine) (root : Node) (ctx : Context) :
    engine.expandIn root ctx =
      match engine.unroll root ctx with
      | (.error e, ctx) => (.error e, ctx)
      | (.ok none, ctx) => (engine.substitute ctx root, ctx)
      | (.ok (some root), ctx) => engine.expandIn root ctx := by
  rw [expandIn, unroll]
  split
  · simp_all
  · simp_all
  · rename_i site h
    simp only [h]
    unfold copyOf
    generalize forItems site.header.binding _ _ ctx = r
    obtain ⟨output | output, ctx'⟩ := r <;> rfl

/-- The document that a template and data make. -/
def expand (engine : Engine) (template : Node) (ctx : Context) : Except TemplateError Node :=
  (engine.expandIn template ctx).1

def expandMany (engine : Engine) (template : Node) (contexts : List Context) :
    List (Except TemplateError Node) :=
  contexts.map (engine.expand template)

end Engine

end FormLetter
