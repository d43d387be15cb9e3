import FormLetter.Proofs.Tag.Listing
import FormLetter.Proofs.Tag.Marker
import FormLetter.Proofs.Tag.Pass
import FormLetter.Proofs.Tree.Mapping

/-!
# Templates without loops

Where rendering does not fail, the expansion of a template without loops rewrites its scanned texts
and nothing else (`mapTexts`); where it does, the failure is that of the first of them that cannot
be rendered (`expand_pointwise`).
-/

namespace FormLetter

open FormLetter.Loop FormLetter.Text

namespace Node

/-- What rewriting makes of the scanned texts of a list, the others left as they are. -/
def rewriting (texts : List (Path × String)) (g : String → String) (path : Path) (s : String) :
    String :=
  if (path, s) ∈ texts then g s else s

section Children

variable {container : Option String} {name : String} {index i : Nat} {q : Path} {s : String}
  {n : Node} {ns : List Node}

theorem mem_childTexts_cons_self (hf : n.isFragment = false) :
    (index :: q, s) ∈ childTexts container name index (n :: ns) ↔
      (q, s) ∈ textsUnder container (some name) n := by
  rw [childTexts, hf, List.mem_append]
  constructor
  · rintro (h | h)
    · obtain ⟨x, hx, he⟩ := List.mem_map.1 h
      cases he
      exact hx
    · obtain ⟨-, hle, -⟩ := exists_of_mem_childTexts h
      omega
  · intro h
    exact .inl (List.mem_map.2 ⟨(q, s), h, rfl⟩)

theorem mem_childTexts_cons_of_lt (h : index < i) :
    (i :: q, s) ∈ childTexts container name index (n :: ns) ↔
      (i :: q, s) ∈ childTexts container name (index + 1) ns := by
  rw [childTexts, List.mem_append]
  refine ⟨fun hm => hm.resolve_left fun hm => ?_, .inr⟩
  split at hm
  · cases hm
  · obtain ⟨x, -, he⟩ := List.mem_map.1 hm
    cases he
    exact Nat.lt_irrefl _ h

end Children

section Edit

variable {ε : Type} {f : String → Except ε String} {g : String → String}

mutual

theorem editUnder_eq_mapTexts (container parent : Option String) : (n : Node) →
    n.hasFragment = false → (∀ x ∈ textsUnder container parent n, f x.2 = .ok (g x.2)) →
    editUnder f container parent n =
      (n.mapTexts (rewriting (textsUnder container parent n) g), none)
  | .text s, _, h => by
    rw [textsUnder] at h ⊢
    rw [editUnder, mapTexts, rewriting]
    by_cases hs : isSelected container parent = true
    · simp only [if_pos hs, List.mem_singleton, forall_eq] at h ⊢
      simp [h]
    · simp [if_neg hs]
  | .element name attributes children, hf, h => by
    rw [hasFragment, Bool.or_eq_false_iff] at hf
    rw [textsUnder] at h ⊢
    rw [editUnder, mapTexts, editChildren_eq_mapAllTexts container name 0 children hf.2 h]

theorem editChildren_eq_mapAllTexts (container : Option String) (name : String) (index : Nat) :
    (ns : List Node) → haveFragment ns = false →
    (∀ x ∈ childTexts container name index ns, f x.2 = .ok (g x.2)) →
    editChildren f container name ns =
      (mapAllTexts (rewriting (childTexts container name index ns) g) index ns, none)
  | [], _, _ => rfl
  | n :: ns, hf, h => by
    rw [haveFragment, Bool.or_eq_false_iff] at hf
    have hn := isFragment_of_hasFragment hf.1
    have hself : ∀ x ∈ textsUnder container (some name) n, f x.2 = .ok (g x.2) := fun x hx =>
      h (index :: x.1, x.2) ((mem_childTexts_cons_self hn).2 hx)
    have hothers : ∀ x ∈ childTexts container name (index + 1) ns, f x.2 = .ok (g x.2) :=
      fun x hx => h x (by rw [childTexts]; exact List.mem_append_right _ hx)
    -- a path is scanned as one into the first child or as one into the others, by its first step
    have hfirst : (fun path => rewriting (childTexts container name index (n :: ns)) g
        (index :: path)) = rewriting (textsUnder container (some name) n) g := by
      funext path s
      simp only [rewriting, mem_childTexts_cons_self hn]
    have hrest : mapAllTexts (rewriting (childTexts container name index (n :: ns)) g) (index + 1)
        ns = mapAllTexts (rewriting (childTexts container name (index + 1) ns) g) (index + 1) ns :=
      mapAllTexts_congr fun i path s hi => by
        simp only [rewriting, mem_childTexts_cons_of_lt (Nat.lt_of_succ_le hi)]
    rw [editChildren, hn, editUnder_eq_mapTexts container (some name) n hf.1 hself,
      editChildren_eq_mapAllTexts container name (index + 1) ns hf.2 hothers, mapAllTexts, hfirst,
      hrest]
    rfl

end

end Edit

end Node

/-! ## Expansion -/

namespace Engine

variable {engine : Engine} {template : Node}

theorem substitute_eq_mapTexts (hf : template.hasFragment = false) {ctx : Context}
    {g : String → String}
    (h : ∀ x ∈ template.texts engine.layout.textContainer,
      Tag.render engine.filters ctx x.2 = .ok (g x.2)) :
    engine.substitute ctx template =
      .ok (template.mapTexts (Node.rewriting (template.texts engine.layout.textContainer) g)) := by
  have hedit : template.editTexts (Tag.render engine.filters ctx) engine.layout.textContainer =
      (template.mapTexts (Node.rewriting (template.texts engine.layout.textContainer) g), none) :=
    Node.editUnder_eq_mapTexts engine.layout.textContainer none template hf h
  have hflat := Node.flatten_eq_self
    (template.mapTexts (Node.rewriting (template.texts engine.layout.textContainer) g))
    ((Node.hasFragment_mapTexts _ template).trans hf)
  rw [substitute, hedit]
  simp only [hflat]

/-- The first scanned text that cannot be rendered is why substitution fails. -/
theorem substitute_eq_error {ctx : Context} {before after : List (Path × String)} {path : Path}
    {s : String} {e : TemplateError}
    (ht : template.texts engine.layout.textContainer = before ++ (path, s) :: after)
    (hb : ∀ x ∈ before, ∃ out, Tag.render engine.filters ctx x.2 = .ok out)
    (he : Tag.render engine.filters ctx s = .error e) :
    engine.substitute ctx template = .error e := by
  refine Except.error?_eq_some_iff.1 ?_
  have hbefore : (before.map (·.2)).findSome?
      (fun s => Except.error? (Tag.render engine.filters ctx s)) = none := by
    rw [List.findSome?_map, List.findSome?_eq_none_iff]
    intro x hx
    obtain ⟨out, hout⟩ := hb x hx
    rw [Function.comp_apply, hout]
    rfl
  rw [error?_substitute, Node.strings, ht, List.map_append, List.map_cons, List.findSome?_append,
    hbefore, List.findSome?_cons, he]
  rfl

/-- Expanding a template without loops renders its scanned texts and leaves everything else as it
is, or fails as the first of them that cannot be rendered. A template without tags does not
change. -/
theorem expand_pointwise (engine : Engine) (template : Node) (hf : template.hasFragment = false)
    (ctx : Context) :
    (NoStart (template.texts engine.layout.textContainer) →
      (∀ g : String → String,
        (∀ x ∈ template.texts engine.layout.textContainer,
          Tag.render engine.filters ctx x.2 = .ok (g x.2)) →
        engine.expand template ctx = .ok (template.mapTexts fun path s =>
          if (path, s) ∈ template.texts engine.layout.textContainer then g s else s)) ∧
      (∀ before path s after e,
        template.texts engine.layout.textContainer = before ++ (path, s) :: after →
        (∀ x ∈ before, ∃ out, Tag.render engine.filters ctx x.2 = .ok out) →
        Tag.render engine.filters ctx s = .error e → engine.expand template ctx = .error e)) ∧
    ((∀ x ∈ template.texts engine.layout.textContainer,
      Tag.tagPattern.occursIn x.2.toList = false) → engine.expand template ctx = .ok template) := by
  refine ⟨fun hs => ?_, fun h => ?_⟩
  · rw [expand_of_none (find?_eq_none hs)]
    exact ⟨fun g h => substitute_eq_mapTexts hf h,
      fun before path s after e ht hb he => substitute_eq_error ht hb he⟩
  · have hs : NoStart (template.texts engine.layout.textContainer) := fun x hx =>
      hasStart_of_occursIn_eq_false (h x hx)
    have hsame : ∀ x ∈ template.texts engine.layout.textContainer,
        Tag.render engine.filters ctx x.2 = .ok (id x.2) := fun x hx =>
      Tag.render_of_occursIn_eq_false (h x hx)
    have hid : Node.rewriting (template.texts engine.layout.textContainer) id = fun _ s => s := by
      funext path s
      rw [Node.rewriting, id, ite_self]
    rw [expand_of_none (find?_eq_none hs), substitute_eq_mapTexts hf hsame, hid,
      Node.mapTexts_self]

/-- In a note the attribute and the text outside the container stay as they are. -/
theorem note_expand :
    let note : Node := .element "w:p" [("hint", "{name}")]
      [.element "w:t" [] [.text "Dear {name}"], .element "w:tab" [] [.text "{name}"]]
    let ctx := Context.ofFields [("name", .text "Ann")]
    note.hasFragment = false ∧ NoStart (note.texts (some "w:t")) ∧
      (Engine.mk .builtin {}).expand note ctx = .ok (.element "w:p" [("hint", "{name}")]
        [.element "w:t" [] [.text "Dear Ann"], .element "w:tab" [] [.text "{name}"]]) := by
  intro note ctx
  have hf : note.hasFragment = false := by decide
  have htexts : note.texts (some "w:t") = [([0, 0], "Dear {name}")] := by decide
  have hs : NoStart (note.texts (some "w:t")) := by
    rw [htexts]
    exact List.forall_mem_singleton.2 (by decide)
  have hvalue : (Tag.render .builtin ctx "Dear {name}").toOption = some "Dear Ann" := by
    decide +kernel
  have hrender : Tag.render .builtin ctx "Dear {name}" = .ok "Dear Ann" := by
    cases h : Tag.render .builtin ctx "Dear {name}" with
    | error e => rw [h] at hvalue; cases hvalue
    | ok out => rw [h] at hvalue; cases hvalue; rfl
  have hall : ∀ x ∈ note.texts (some "w:t"), Tag.render .builtin ctx x.2 = .ok "Dear Ann" := by
    rw [htexts]
    exact List.forall_mem_singleton.2 hrender
  have hexpand := ((expand_pointwise ⟨.builtin, {}⟩ note hf ctx).1 hs).1 (fun _ => "Dear Ann") hall
  refine ⟨hf, hs, hexpand.trans (congrArg Except.ok ?_)⟩
  rfl

end Engine

end FormLetter
