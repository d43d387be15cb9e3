import FormLetter.Proofs.Engine.Document
import FormLetter.Proofs.Loop.Ending
import FormLetter.Proofs.Loop.Steady

/-!
# Loop ends in a document

With data without braces no tag makes a loop end or takes one away, so a loop end of a document was
one of the template, in a text that no loop takes out (`Renders.exists_remains`). No step of a run
looks for these. In a steady template they are the ends that are one too many: a document has a loop
end exactly if somewhere in its template more loops have ended than started (`hasEnd_expand`).
-/

namespace FormLetter

open FormLetter.Json FormLetter.Loop

/-- The text is left of the tree, or of the body of one of its loops, when all loops are unrolled,
whatever is put in their places. -/
inductive Loop.Remains (layout : Layout) : Node → String → Prop where
  | text {root : Node} {s : String} :
    Site.find? layout root = .ok none → s ∈ root.strings layout.textContainer →
    Remains layout root s
  | body {root : Node} {site : Site} {s : String} :
    Site.find? layout root = .ok (some site) → Remains layout (.fragment site.body) s →
    Remains layout root s
  | rest {root : Node} {site : Site} {nodes : List Node} {s : String} :
    Site.find? layout root = .ok (some site) → Remains layout (site.replace nodes root) s →
    Remains layout root s

theorem Loop.hasStart_of_find? {layout : Layout} {root : Node}
    (h : Site.find? layout root = .ok none) {s : String}
    (hs : s ∈ root.strings layout.textContainer) : hasStart s = false := by
  rw [Site.find?] at h
  cases hstart : firstStart? layout.textContainer root with
  | none =>
    obtain ⟨x, hx, rfl⟩ := List.mem_map.1 hs
    have hnone := List.findSome?_eq_none_iff.1 hstart x hx
    rw [← isSome_startIn?, Option.map_eq_none_iff.1 hnone]
    rfl
  | some start =>
    rw [hstart] at h
    simp only at h
    split at h
    · cases h
    · split at h <;> cases h

/-- A loop end that is left of a steady tree is one too many. -/
theorem Loop.Remains.hasStrayEnd {layout : Layout} {root : Node} {s : String}
    (h : Remains layout root s) (hc : layout.textContainer ≠ some Node.fragmentName)
    (hcontainers : ∀ c, layout.textContainer = some c → root.holdsOnlyTexts c = true)
    (hsteady : layout.SteadyAmong root.children) (hs : hasEnd s = true) :
    HasStrayEnd (root.strings layout.textContainer) := by
  induction h with
  | text hd hm => exact (hasStrayEnd_of_noStart fun _ => hasStart_of_find? hd).2 ⟨_, hm, hs⟩
  | body hsite _ ih =>
    obtain ⟨hbody, hnone, -⟩ := Site.steady hc hcontainers hsteady hsite
    exact absurd (ih (Site.holdsOnlyTexts hc hcontainers hsite).1 hbody hs) hnone
  | @rest root site nodes s hsite _ ih =>
    obtain ⟨hrest, hiff⟩ := (Site.steady hc hcontainers hsteady hsite).2.2 nodes
    exact hiff.1 (ih ((Site.holdsOnlyTexts hc hcontainers hsite).2 nodes) hrest hs)

namespace Engine

variable {engine : Engine} {ctx : Context}

theorem isBraceFree_itemContext (h : ctx.IsBraceFree) {header : Header} {item : Value × Value}
    (hi : item ∈ items ctx header) : (itemContext header ctx item).IsBraceFree := by
  rw [items] at hi
  cases hv : ctx.lookup header.collection with
  | none =>
    rw [hv] at hi
    cases hi
  | some v =>
    rw [hv] at hi
    obtain ⟨hkey, hvalue⟩ := (h.lookup hv).of_mem_pairs hi
    refine h.inside fun b hb => ?_
    simp only [bindings, List.mem_cons, List.not_mem_nil, or_false] at hb
    rcases hb with rfl | rfl
    · exact hvalue
    · exact hkey

/-- A rendered text has a loop end exactly if the text that it comes from has one. -/
theorem Renders.exists_remains {root : Node} {out : String} (h : engine.Renders root ctx out)
    (hc : engine.layout.textContainer ≠ some Node.fragmentName)
    (hfilters : engine.filters.IsCalm) (hctx : ctx.IsBraceFree)
    (hlegible : ∀ s ∈ root.strings engine.layout.textContainer, Legible s) :
    ∃ s, Remains engine.layout root s ∧ hasEnd out = hasEnd s := by
  induction h with
  | text hd hs hr => exact ⟨_, .text hd hs, hasEnd_render hctx hfilters (hlegible _ hs) hr⟩
  | copy hsite hitem _ ih =>
    have hsubset := (Site.find?_of hsite).strings_body_subset hc
    obtain ⟨s, hs, he⟩ := ih (isBraceFree_itemContext hctx hitem)
      fun s hm => hlegible s (hsubset hm)
    exact ⟨s, .body hsite hs, he⟩
  | @rest root ctx site nodes out hsite _ _ ih =>
    have hsubset : (site.replace nodes root).strings engine.layout.textContainer ⊆
        root.strings engine.layout.textContainer :=
      (Site.find?_of hsite).strings_replace_subset nodes
    obtain ⟨s, hs, he⟩ := ih hctx fun s hm => hlegible s (hsubset hm)
    exact ⟨s, .rest hsite hs, he⟩

/-- Substitution loses no text. -/
theorem exists_render_of_substitute {root t : Node} (h : engine.substitute ctx root = .ok t)
    {s : String} (hs : s ∈ root.strings engine.layout.textContainer) :
    ∃ out ∈ t.strings engine.layout.textContainer, Tag.render engine.filters ctx s = .ok out := by
  cases root with
  | text u =>
    rw [substitute_text] at h
    rw [Node.strings_text] at hs
    split at h
    · rename_i hn
      obtain ⟨out, hr, rfl⟩ := Except.map_eq_ok.1 h
      rw [if_pos hn, List.mem_singleton] at hs
      rw [hs]
      exact ⟨out, by rw [Node.strings_text, if_pos hn]; exact List.mem_singleton_self out, hr⟩
    · rename_i hn
      rw [if_neg hn] at hs
      cases hs
  | element name attributes ns =>
    rw [substitute_element] at h
    obtain ⟨ms, hm, rfl⟩ := Except.map_eq_ok.1 h
    obtain ⟨edited, he, rfl⟩ := settle_eq_ok.1 hm
    have hmap := Node.map_childStrings_editChildren he
    obtain ⟨out, hout, hr⟩ := List.mem_map.1 (hmap ▸ List.mem_map_of_mem hs)
    exact ⟨out, (Node.mem_childStrings_flattenChildren _ name out edited).2 (.inl hout), hr.symm⟩

/-- A loop end that is one too many in a steady template is left in the document. -/
theorem exists_hasEnd_of_hasStrayEnd (hc : engine.layout.textContainer ≠ some Node.fragmentName)
    (hfilters : engine.filters.IsCalm) (hctx : ctx.IsBraceFree) {root t : Node}
    (hcontainers : ∀ c, engine.layout.textContainer = some c → root.holdsOnlyTexts c = true)
    (hlegible : ∀ s ∈ root.strings engine.layout.textContainer, Legible s)
    (hsteady : engine.layout.SteadyAmong root.children)
    (hstray : HasStrayEnd (root.strings engine.layout.textContainer))
    (h : engine.expand root ctx = .ok t) :
    ∃ s ∈ t.strings engine.layout.textContainer, hasEnd s = true := by
  induction root using run_induction engine.layout with
  | failed root e he =>
    rw [expand_of_error he] at h
    cases h
  | done root hd =>
    rw [expand_of_none hd] at h
    obtain ⟨s, hs, he⟩ := (hasStrayEnd_of_noStart fun _ => hasStart_of_find? hd).1 hstray
    obtain ⟨out, hout, hr⟩ := exists_render_of_substitute h hs
    exact ⟨out, hout, (hasEnd_render hctx hfilters (hlegible s hs) hr).trans he⟩
  | loop root site hsite _ ih =>
    rw [expand_of_site hsite] at h
    obtain ⟨nodes, -, h⟩ := Except.bind_eq_ok.1 h
    obtain ⟨hrest, hiff⟩ := (Site.steady hc hcontainers hsteady hsite).2.2 nodes
    have hsubset : (site.replace nodes root).strings engine.layout.textContainer ⊆
        root.strings engine.layout.textContainer :=
      (Site.find?_of hsite).strings_replace_subset nodes
    exact ih nodes ((Site.holdsOnlyTexts hc hcontainers hsite).2 nodes)
      (fun s hm => hlegible s (hsubset hm)) hrest (hiff.2 hstray) h

/-- Where the data has no braces, no filter prints any, and no tag of the template is written in
another one or as a loop end: a loop end of a document is one that no loop of the template takes
out, and if the template is steady, there is one exactly if somewhere in the template more loops
have ended than started. -/
theorem hasEnd_expand {template t : Node} (hf : template.hasFragment = false)
    (hc : ∀ c, engine.layout.textContainer = some c →
      c ≠ Node.fragmentName ∧ template.holdsOnlyTexts c = true)
    (hlegible : ∀ s ∈ template.strings engine.layout.textContainer, Legible s)
    (hfilters : engine.filters.IsCalm) (hctx : ctx.IsBraceFree)
    (h : engine.expand template ctx = .ok t) :
    (∀ out ∈ t.strings engine.layout.textContainer, hasEnd out = true →
        ∃ s, Remains engine.layout template s ∧ hasEnd s = true) ∧
      (engine.layout.SteadyAmong template.children →
        ((∃ out ∈ t.strings engine.layout.textContainer, hasEnd out = true) ↔
          HasStrayEnd (template.strings engine.layout.textContainer))) := by
  have hname : engine.layout.textContainer ≠ some Node.fragmentName := fun e => (hc _ e).1 rfl
  have hcontainers : ∀ c, engine.layout.textContainer = some c →
      template.holdsOnlyTexts c = true := fun c hcc => (hc c hcc).2
  have hremains : ∀ out ∈ t.strings engine.layout.textContainer, hasEnd out = true →
      ∃ s, Remains engine.layout template s ∧ hasEnd s = true := fun out hout hend => by
    obtain ⟨s, hs, he⟩ := (renders_of_mem_strings_expand hf hc h hout).exists_remains hname
      hfilters hctx hlegible
    exact ⟨s, hs, he.symm.trans hend⟩
  refine ⟨hremains, fun hsteady => ⟨?_, fun hstray => ?_⟩⟩
  · rintro ⟨out, hout, hend⟩
    obtain ⟨s, hs, he⟩ := hremains out hout hend
    exact hs.hasStrayEnd hname hcontainers hsteady he
  · exact exists_hasEnd_of_hasStrayEnd hname hfilters hctx hcontainers hlegible hsteady hstray h

def roster : Node :=
  let block (s : String) : Node := .element "p" [] [.text s]
  .element "body" [] [block "{foreach names as name}", block "{name}", block "{/foreach}"]

theorem steadyAmong_roster : Layout.html.SteadyAmong roster.children := by
  have hblock : ∀ s, (hasStart s = true → hasEnd s = false) →
      (Node.element "p" [] [.text s]).Steady .html := fun s hs => by
    refine .element ⟨orderlyTexts_of_length_le_one (Nat.le_refl 1), fun x hx hstart _ => ?_⟩ ?_
    · rw [List.mem_singleton.1 hx] at hstart
      have hstrings : Node.childStrings Layout.html.textContainer "p" [.text s] = [s] := rfl
      rw [hstrings, startsIn, endsIn, List.countP_singleton, List.countP_singleton, hs hstart,
        if_pos hstart]
      exact ⟨rfl, rfl⟩
    · intro n hn _
      rw [List.mem_singleton.1 hn]
      exact .text s
  intro n hn _
  have hn : n ∈ ["{foreach names as name}", "{name}", "{/foreach}"].map fun s =>
      Node.element "p" [] [.text s] := hn
  have hmarkers : ∀ s ∈ ["{foreach names as name}", "{name}", "{/foreach}"],
      hasStart s = true → hasEnd s = false := by
    decide +kernel
  obtain ⟨s, hs, rfl⟩ := List.mem_map.1 hn
  exact hblock s (hmarkers s hs)

theorem roster_hasEnd :
    let ctx := Context.ofFields [("names", .array [.text "Ann", .text "Bob"])]
    ∃ t, (Engine.mk .builtin .html).expand roster ctx = .ok t ∧
      ∀ s ∈ t.strings none, hasEnd s = false := by
  intro ctx
  have hok : ((Engine.mk .builtin .html).expand roster ctx).toOption.isSome = true := by
    decide +kernel
  cases h : (Engine.mk .builtin .html).expand roster ctx with
  | error e => rw [h] at hok; cases hok
  | ok t =>
    have hctx : ctx.IsBraceFree :=
      List.forall_mem_singleton.2
        ⟨List.all_eq_true.1 (rfl : "Ann".toList.all Text.isBraceless = true),
          List.all_eq_true.1 (rfl : "Bob".toList.all Text.isBraceless = true), trivial⟩
    have hcalm : (Engine.mk .builtin .html).filters.IsCalm := Registry.isCalm_builtin
    have hcontainer : ∀ c, Layout.html.textContainer = some c →
        c ≠ Node.fragmentName ∧ roster.holdsOnlyTexts c = true := fun _ hc => nomatch hc
    have hiff := (hasEnd_expand rfl hcontainer (by decide +kernel) hcalm hctx h).2
      steadyAmong_roster
    have hnone : ¬HasStrayEnd (roster.strings none) := by
      refine not_hasStrayEnd_iff.2 fun front hfront => ?_
      have hall : ∀ front ∈ (roster.strings none).inits, endsIn front ≤ startsIn front := by
        decide +kernel
      exact hall front ((List.mem_inits front _).2 hfront)
    refine ⟨t, rfl, fun s hs => Bool.eq_false_iff.2 fun hend => hnone (hiff.1 ⟨s, hs, hend⟩)⟩

/-- A loop end without a loop is left as it is. -/
theorem stray_hasEnd :
    let stray : Node := .element "body" [] [.element "p" [] [.text "{/foreach}"]]
    ∃ t, (Engine.mk .builtin .html).expand stray .empty = .ok t ∧
      ∃ s ∈ t.strings none, hasEnd s = true := by
  intro stray
  have hok : ((Engine.mk .builtin .html).expand stray .empty).toOption.map (Node.strings none) =
      some ["{/foreach}"] := by
    decide +kernel
  cases h : (Engine.mk .builtin .html).expand stray .empty with
  | error e => rw [h] at hok; cases hok
  | ok t =>
    rw [h] at hok
    have ht : t.strings none = ["{/foreach}"] := Option.some.inj hok
    exact ⟨t, rfl, "{/foreach}", by rw [ht]; exact List.mem_singleton_self _, by decide⟩

end Engine

end FormLetter
