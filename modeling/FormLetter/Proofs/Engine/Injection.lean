import FormLetter.Proofs.Context.Shape
import FormLetter.Proofs.Engine.Run
import FormLetter.Proofs.Loop.Texts
import FormLetter.Proofs.Tag.Simple
import FormLetter.Proofs.Tree.Fragment
import FormLetter.Proofs.Tree.Skeleton

/-!
# Data is never read as template

Two runs on one template with data of the same shape take the same course: `expand_skeleton_eq`.
Their trees differ in finished output only, and there only in texts, so they are the same once they
are redacted, and each step keeps that.
-/

namespace FormLetter

open FormLetter.Json FormLetter.Loop

namespace Engine

variable {engine : Engine} {ctx ctx' : Context}

theorem items_of_sameShape (h : ctx.SameShape ctx') (header : Header) :
    (items ctx header).map (fun (k, v) => (k, v.shape)) =
      (items ctx' header).map fun (k, v) => (k, v.shape) := by
  have hl := h.lookup header.collection
  rw [items, items]
  cases hv : ctx.lookup header.collection with
  | none =>
    rw [hv] at hl
    rw [Option.map_eq_none_iff.1 hl.symm]
  | some v =>
    rw [hv] at hl
    obtain ⟨w, hw, hs⟩ := Option.map_eq_some_iff.1 hl.symm
    rw [hw]
    simp only [Option.map_some, Option.getD_some]
    rw [← Value.pairs_shape, ← Value.pairs_shape, hs]

theorem itemContext_sameShape (h : ctx.SameShape ctx') (header : Header) (key : Value)
    {v w : Value} (hv : v.shape = w.shape) :
    (itemContext header ctx (key, v)).SameShape (itemContext header ctx' (key, w)) :=
  (h.insert header.binding hv).insert indexBinding rfl

/-- If the copies of two loop bodies have the same skeletons, so has the output of the loops. -/
theorem output_skeletons_eq {body body' : List Node} (h : ctx.SameShape ctx') (header : Header)
    (hcopy : ∀ ctx ctx', ctx.SameShape ctx' →
      (engine.expand (.fragment body) ctx).map Node.skeleton =
        (engine.expand (.fragment body') ctx').map Node.skeleton) :
    (engine.output header body ctx).map Node.skeletons =
      (engine.output header body' ctx').map Node.skeletons := by
  have hchildren : ∀ ctx ctx', ctx.SameShape ctx' →
      ((engine.expand (.fragment body) ctx).map Node.children).map Node.skeletons =
        ((engine.expand (.fragment body') ctx').map Node.children).map Node.skeletons := by
    have hcomm : ∀ x : Except TemplateError Node, (x.map Node.children).map Node.skeletons =
        (x.map Node.skeleton).map Node.children := by
      rintro (e | ⟨s⟩ | ⟨name, attributes, ns⟩) <;> rfl
    intro ctx ctx' h
    rw [hcomm, hcomm, hcopy ctx ctx' h]
  have hitems := items_of_sameShape h header
  rw [output, output, flatMapM_map rfl Node.skeletons_append,
    flatMapM_map rfl Node.skeletons_append]
  generalize items ctx header = list at hitems
  generalize items ctx' header = list' at hitems
  induction list generalizing list' with
  | nil =>
    cases list' with
    | nil => rfl
    | cons item' list' => cases hitems
  | cons item list ih =>
    cases list' with
    | nil => cases hitems
    | cons item' list' =>
      obtain ⟨key, v⟩ := item
      obtain ⟨key', w⟩ := item'
      simp only [List.map_cons, List.cons.injEq, Prod.mk.injEq] at hitems
      obtain ⟨⟨rfl, hv⟩, hrest⟩ := hitems
      rw [List.flatMapM_cons, List.flatMapM_cons, ih list' hrest,
        hchildren _ _ (itemContext_sameShape h header key hv)]

theorem map_skeleton_substitute (ctx : Context) (root : Node) :
    (engine.substitute ctx root).map Node.skeleton =
      match (root.texts engine.layout.textContainer).findSome? fun x =>
        Node.failure? (Tag.render engine.filters ctx) x.2 with
      | none => .ok root.skeleton.flatten
      | some e => .error e := by
  rw [substitute, ← Node.editTexts_snd,
    ← Node.skeleton_editTexts (Tag.render engine.filters ctx) engine.layout.textContainer root]
  generalize root.editTexts (Tag.render engine.filters ctx) engine.layout.textContainer = r
  obtain ⟨tree, e⟩ := r
  cases e with
  | some e => rfl
  | none => exact congrArg Except.ok (Node.skeleton_flatten tree)

theorem substitute_skeleton_eq {root root' : Node} (hr : root.redact = root'.redact)
    (ht : ∀ s ∈ root.strings engine.layout.textContainer,
      (Tag.render engine.filters ctx s).map (fun _ => ()) =
        (Tag.render engine.filters ctx' s).map fun _ => ()) :
    (engine.substitute ctx root).map Node.skeleton =
      (engine.substitute ctx' root').map Node.skeleton := by
  have hskeleton : root.skeleton = root'.skeleton := by
    rw [← Node.skeleton_redact root, hr, Node.skeleton_redact]
  have htexts : root.texts engine.layout.textContainer =
      root'.texts engine.layout.textContainer := by
    rw [← Node.texts_redact _ root, hr, Node.texts_redact]
  rw [map_skeleton_substitute, map_skeleton_substitute, ← hskeleton, ← htexts,
    Node.findSome?_failure?_congr fun x hx => ht x.2 (List.mem_map_of_mem hx)]

/-- Two runs on data of the same shape, from trees that differ in finished output only. -/
theorem run_skeleton_eq {layout : Layout} (hc : layout.textContainer ≠ some Node.fragmentName)
    {root root' : Node} (hr : root.redact = root'.redact) (h : ctx.SameShape ctx')
    (ht : ∀ s ∈ root.strings layout.textContainer, Tag.IsSimple s) :
    ((Engine.mk .builtin layout).expand root ctx).map Node.skeleton =
      ((Engine.mk .builtin layout).expand root' ctx').map Node.skeleton := by
  induction root using run_induction layout generalizing root' ctx ctx' with
  | failed root e he =>
    rw [expand_of_error he, expand_of_error (Site.find?_error_of_redact_eq hr he)]
  | done root hd =>
    rw [expand_of_none hd, expand_of_none (Site.find?_none_of_redact_eq hr hd)]
    refine substitute_skeleton_eq hr fun s hs => ?_
    rw [Tag.render_unit (ht s hs), Tag.render_unit (ht s hs)]
  | loop root site hs ihbody ihrest =>
    obtain ⟨site', hs', hsite⟩ := Site.find?_some_of_redact_eq hr hs
    have hof := Site.find?_of hs
    have hheader : site.header = site'.header := (Site.mk.inj hsite).1
    have hbody : (Node.fragment site.body).redact = (Node.fragment site'.body).redact :=
      congrArg (Node.element Node.fragmentName []) (Site.mk.inj hsite).2.2.2
    have hout : ((Engine.mk .builtin layout).output site.header site.body ctx).map Node.skeletons =
        ((Engine.mk .builtin layout).output site.header site'.body ctx').map Node.skeletons := by
      refine output_skeletons_eq h site.header fun ctx ctx' h => ?_
      exact ihbody hbody h fun s hm => ht s (hof.strings_body_subset hc hm)
    rw [expand_of_site hs, expand_of_site hs', ← hheader]
    refine Except.map_bind_congr hout fun ns ns' hns => ?_
    refine ihrest ns ?_ h fun s hm => ht s (hof.strings_replace_subset ns hm)
    rw [hof.redact_replace, (Site.find?_of hs').redact_replace, hsite, hr, hns]

/-- Strings in the data decide neither which loops run and what they remove nor which errors there
are, whatever template they look like. -/
theorem expand_skeleton_eq {layout : Layout} {template : Node}
    (hf : template.hasFragment = false) (h : ctx.SameShape ctx')
    (ht : ∀ s ∈ template.strings layout.textContainer, Tag.IsSimple s) :
    ((Engine.mk .builtin layout).expand template ctx).map Node.skeleton =
      ((Engine.mk .builtin layout).expand template ctx').map Node.skeleton := by
  by_cases hc : layout.textContainer = some Node.fragmentName
  · -- no text is scanned, for there are no fragments in the template
    have hnone : template.texts layout.textContainer = [] := hc ▸ Node.texts_fragmentName hf
    have hd : Site.find? layout template = .ok none := by
      rw [Site.find?, firstStart?, hnone]
      rfl
    rw [expand_of_none hd, expand_of_none hd]
    refine substitute_skeleton_eq rfl fun s hs => ?_
    rw [Node.strings, hnone] at hs
    cases hs
  · exact run_skeleton_eq hc rfl h ht

/-- A letter to each of some names. -/
def letters : Node :=
  let block (s : String) : Node := .element "p" [] [.text s]
  .element "body" []
    [block "{foreach names as name}", block "Dear {name | upper}", block "{/foreach}"]

theorem letters_skeleton :
    ((Engine.mk .builtin .html).expand letters
        (.ofFields [("names", .array [.text "Ann", .text "Bob"])])).map Node.skeleton =
      ((Engine.mk .builtin .html).expand letters
        (.ofFields [("names",
          .array [.text "{/foreach}", .text "{foreach names as name} {x}"])])).map Node.skeleton :=
  expand_skeleton_eq (by decide) rfl (by decide +kernel)

end Engine

end FormLetter
