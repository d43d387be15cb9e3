import FormLetter.Engine.Basic
import FormLetter.Proofs.Context.Scope
import FormLetter.Proofs.Failure

/-!
# What a run does, step by step

Expansion gives its context back (`expandIn_eq_expand`), so a document is a function of the tree
and the data: `expand_of_none`, `expand_of_error` and `expand_of_site` say what it is when there is
no loop left, when a loop is misplaced or open, and when there is a first loop. `run_induction` is
induction over the loops of a run, those in loop bodies included.
-/

namespace FormLetter

open FormLetter.Json FormLetter.Loop

namespace Engine

variable {engine : Engine} {root : Node} {site : Site}

/-- The context of a loop body for one item. -/
def itemContext (header : Header) (ctx : Context) (item : Value × Value) : Context :=
  ctx.inside (bindings header.binding item)

/-- What stands in the place of a loop once it is unrolled: its body, expanded for each item. -/
def output (engine : Engine) (header : Header) (body : List Node) (ctx : Context) :
    Except TemplateError (List Node) :=
  (items ctx header).flatMapM fun item =>
    (engine.expand (.fragment body) (itemContext header ctx item)).map Node.children

theorem forItems_eq {ε : Type} {body : Context → Except ε (List Node) × Context}
    {f : Context → Except ε (List Node)} (h : ∀ ctx, body ctx = (f ctx, ctx)) (name : String)
    (list : List (Value × Value)) (ctx : Context) :
    forItems name body list ctx =
      (list.flatMapM fun item => f (ctx.inside (bindings name item)), ctx) := by
  induction list with
  | nil => rfl
  | cons item list ih =>
    rw [forItems, Context.within_eq h, List.flatMapM_cons]
    cases f (ctx.inside (bindings name item)) with
    | error e => rfl
    | ok nodes =>
      simp only [ih]
      cases list.flatMapM fun item => f (ctx.inside (bindings name item)) <;> rfl

/-- Expansion gives back the context that it gets. -/
theorem expandIn_eq_expand (engine : Engine) (root : Node) (ctx : Context) :
    engine.expandIn root ctx = (engine.expand root ctx, ctx) := by
  suffices h : ∀ ctx, (engine.expandIn root ctx).2 = ctx from Prod.ext rfl (h ctx)
  generalize hw : root.weight = w
  induction w using Nat.strongRecOn generalizing root with
  | ind w ih =>
    intro ctx
    rw [expandIn_eq, unroll]
    cases hs : Site.find? engine.layout root with
    | error e => rfl
    | ok found =>
      cases found with
      | none => rfl
      | some site =>
        have hof := Site.find?_of hs
        have hcopy : ∀ ctx, engine.copyOf site.body ctx =
            ((engine.expand (.fragment site.body) ctx).map Node.children, ctx) := fun ctx =>
          Prod.ext rfl (ih _ (hw ▸ hof.weight_body_lt) _ rfl ctx)
        simp only [forItems_eq hcopy]
        cases (items ctx site.header).flatMapM fun item => (engine.expand (.fragment site.body)
            (ctx.inside (bindings site.header.binding item))).map Node.children with
        | error e => rfl
        | ok nodes => exact ih _ (hw ▸ hof.weight_replace_lt nodes) _ rfl ctx

theorem expand_of_error {e : TemplateError} (h : Site.find? engine.layout root = .error e)
    (ctx : Context) : engine.expand root ctx = .error e := by
  rw [expand, expandIn_eq, unroll, h]

theorem expand_of_none (h : Site.find? engine.layout root = .ok none) (ctx : Context) :
    engine.expand root ctx = engine.substitute ctx root := by
  rw [expand, expandIn_eq, unroll, h]

/-- The copies of a loop body leave the context as it was, whether all are made or one fails. -/
theorem forItems_copyOf (engine : Engine) (header : Header) (body : List Node) (ctx : Context) :
    forItems header.binding (engine.copyOf body) (items ctx header) ctx =
      (engine.output header body ctx, ctx) := by
  have hcopy : ∀ ctx, engine.copyOf body ctx =
      ((engine.expand (.fragment body) ctx).map Node.children, ctx) := fun ctx => by
    rw [copyOf, expandIn_eq_expand]
  exact forItems_eq hcopy header.binding (items ctx header) ctx

/-- A tree with a loop expands as the tree with the output of the loop in its place. -/
theorem expand_of_site (h : Site.find? engine.layout root = .ok (some site)) (ctx : Context) :
    engine.expand root ctx =
      engine.output site.header site.body ctx >>= fun nodes =>
        engine.expand (site.replace nodes root) ctx := by
  rw [expand, expandIn_eq, unroll, h]
  simp only [forItems_copyOf]
  cases engine.output site.header site.body ctx <;> rfl

/-- What holds of every copy of a loop body, and is kept when copies are put one after the other,
holds of the output of the loop. -/
theorem output_induction {P : List Node → Prop} {header : Header} {body ns : List Node}
    {ctx : Context} (nil : P []) (append : ∀ {ns ms}, P ns → P ms → P (ns ++ ms))
    (copy : ∀ item ∈ items ctx header, ∀ t,
      engine.expand (.fragment body) (itemContext header ctx item) = .ok t → P t.children)
    (h : engine.output header body ctx = .ok ns) : P ns := by
  rw [output] at h
  revert copy h
  generalize items ctx header = list
  intro copy h
  induction list generalizing ns with
  | nil => cases h; exact nil
  | cons item list ih =>
    rw [List.flatMapM_cons] at h
    obtain ⟨first, hfirst, h⟩ := Except.bind_eq_ok.1 h
    obtain ⟨others, hothers, h⟩ := Except.bind_eq_ok.1 h
    obtain ⟨t, ht, rfl⟩ := Except.map_eq_ok.1 hfirst
    cases h
    exact append (copy item (List.mem_cons_self ..) t ht)
      (ih (fun item hm => copy item (List.mem_cons_of_mem _ hm)) hothers)

/-- Induction over the loops of a tree: over those of its first loop's body, and over those that
are left when the first is unrolled. -/
theorem run_induction (layout : Layout) {P : Node → Prop}
    (failed : ∀ root e, Site.find? layout root = .error e → P root)
    (done : ∀ root, Site.find? layout root = .ok none → P root)
    (loop : ∀ root site, Site.find? layout root = .ok (some site) →
      P (.fragment site.body) → (∀ nodes, P (site.replace nodes root)) → P root)
    (root : Node) : P root := by
  generalize hw : root.weight = w
  induction w using Nat.strongRecOn generalizing root with
  | ind w ih =>
    cases hs : Site.find? layout root with
    | error e => exact failed root e hs
    | ok found =>
      cases found with
      | none => exact done root hs
      | some s =>
        have hof := Site.find?_of hs
        exact loop root s hs (ih _ (hw ▸ hof.weight_body_lt) _ rfl)
          fun nodes => ih _ (hw ▸ hof.weight_replace_lt nodes) _ rfl

end Engine

end FormLetter
