import FormLetter.Proofs.Engine.Run
import FormLetter.Proofs.Loop.Group
import FormLetter.Proofs.Loop.Texts

/-!
# Every expansion comes to an end

`Expands` is the run of an expansion written as rules: rounds that unroll one loop each, in each of
them a run for every copy of the loop body, and at the end the tags. A run is finite, so that there
is one from every tree and no other (`exists_rounds`) is termination. What bounds a run are two
measures that do not see finished output: the loop starts of a tree, of which each round leaves
fewer (`starts_lt_of_unroll`), and the nodes of a tree, of which a loop body has fewer.
-/

namespace FormLetter

open FormLetter.Json FormLetter.Loop

namespace Node

/-- How many of the scanned texts hold a loop start. -/
def starts (container : Option String) (n : Node) : Nat := (n.strings container).countP hasStart

/-- A scanned text below a node is one of the scanned texts of the node. -/
theorem exists_of_mem_textsUnder {container parent : Option String} {p q : Path} {s : String}
    {n : Node} (h : (p ++ q, s) ∈ textsUnder container parent n) :
    ∃ m parent', n.get? p = some m ∧ (q, s) ∈ textsUnder container parent' m := by
  induction p generalizing parent n with
  | nil => exact ⟨n, parent, rfl, h⟩
  | cons i p ih =>
    cases n with
    | text t =>
      rw [textsUnder] at h
      split at h
      · simp at h
      · cases h
    | element name attributes ns =>
      obtain ⟨c, -, hc, hm⟩ := exists_of_mem_childTexts h
      obtain ⟨m, parent', hg, hq⟩ := ih hm
      rw [Nat.sub_zero] at hc
      exact ⟨m, parent', by simpa [get?, children, hc] using hg, hq⟩

theorem textsUnder_of_name? {container parent : Option String} {n : Node}
    (h : n.name?.isSome = true) : textsUnder container parent n = n.texts container := by
  cases n with
  | text s => cases h
  | element name attributes ns => rfl

end Node

namespace Loop.Site

variable {layout : Layout} {root : Node} {site : Site}

theorem exists_marker_of_find? (h : Site.find? layout root = .ok (some site)) :
    ∃ rest s, (site.parent ++ [site.index] ++ rest, s) ∈ root.texts layout.textContainer ∧
      startIn? s = some site.header := by
  obtain ⟨path, rest, k, hstart, rfl, -, -, -⟩ := Site.find?_eq_some h
  obtain ⟨before, s, after, ht, -, hheader⟩ := exists_of_firstStart? hstart
  exact ⟨rest, s, by simp [ht], hheader⟩

/-- The place of a loop that is found, the marker in the first of its nodes. -/
theorem exists_place_of_marker (h : Site.find? layout root = .ok (some site)) :
    ∃ (place : Place) (before : List Node) (first last : Node) (after : List Node),
      place.Visible ∧ first.name?.isSome = true ∧ first.isFragment = false ∧
      last.isFragment = false ∧
      (∃ s ∈ first.strings layout.textContainer, startIn? s = some site.header) ∧
      root = place.fill (before ++ first :: (site.body ++ last :: after)) ∧
      ∀ output, site.replace output root = place.fill (before ++ .fragment output :: after) := by
  obtain ⟨place, before, first, last, after, hv, hp, hi, hname, hf, hl, hroot, -, hreplace⟩ :=
    exists_place_of_find? h
  have hat : root.get? (site.parent ++ [site.index]) = some first := by
    rw [hroot, ← hp, ← hi, Place.get?_fill_append]
    simp [Node.get?, Node.children]
  obtain ⟨rest, s, hm, hs⟩ := exists_marker_of_find? h
  obtain ⟨m, parent', hg, hrest⟩ := Node.exists_of_mem_textsUnder hm
  rw [hat] at hg
  cases hg
  rw [Node.textsUnder_of_name? hname] at hrest
  exact ⟨place, before, first, last, after, hv, hname, hf, hl,
    ⟨s, List.mem_map.2 ⟨(rest, s), hrest, rfl⟩, hs⟩, hroot, hreplace⟩

/-- Unrolling a loop leaves fewer loop starts, whatever its output is. -/
theorem starts_replace_lt (h : Site.find? layout root = .ok (some site)) (output : List Node) :
    (site.replace output root).starts layout.textContainer <
      root.starts layout.textContainer := by
  obtain ⟨place, before, first, last, after, hv, hname, hf, hl, ⟨s, hm, hs⟩, hroot, hreplace⟩ :=
    exists_place_of_marker h
  have hfirst : 0 < (first.strings layout.textContainer).countP hasStart :=
    List.countP_pos_iff.2 ⟨s, hm, hasStart_of_startIn? hs⟩
  rw [hreplace, hroot, Node.starts, Node.starts, Place.strings_fill hv, Place.strings_fill hv]
  simp only [Node.childStrings_append, Node.childStrings_cons, Node.isFragment_fragment, hf, hl,
    Node.textsUnder_of_name? hname, Bool.false_eq_true, ↓reduceIte, List.countP_append,
    List.countP_nil]
  rw [Node.strings] at hfirst
  omega

end Loop.Site

/-! ## Runs -/

namespace Engine

variable {engine : Engine} {root : Node} {ctx : Context}

mutual

/-- Expanding a tree in a context comes to an end after this many rounds with this result. -/
inductive Expands (engine : Engine) :
    Node → Context → Nat → Except TemplateError Node × Context → Prop where
  /-- The first loop is misplaced or open. -/
  | failed {root : Node} {ctx : Context} {e : TemplateError} :
    Site.find? engine.layout root = .error e → Expands engine root ctx 1 (.error e, ctx)
  /-- There is no loop, so the tags are replaced. -/
  | done {root : Node} {ctx : Context} : Site.find? engine.layout root = .ok none →
    Expands engine root ctx 1 (engine.substitute ctx root, ctx)
  /-- A copy of the body of the first loop fails. -/
  | broken {root : Node} {ctx ctx' : Context} {site : Site} {e : TemplateError} :
    Site.find? engine.layout root = .ok (some site) →
    Copies engine site.header.binding site.body (items ctx site.header) ctx (.error e, ctx') →
    Expands engine root ctx 1 (.error e, ctx')
  /-- The first loop is unrolled, and the rounds go on. -/
  | round {root : Node} {ctx ctx' : Context} {site : Site} {output : List Node} {rounds : Nat}
      {result : Except TemplateError Node × Context} :
    Site.find? engine.layout root = .ok (some site) →
    Copies engine site.header.binding site.body (items ctx site.header) ctx (.ok output, ctx') →
    Expands engine (site.replace output root) ctx' rounds result →
    Expands engine root ctx (rounds + 1) result

/-- Expanding a loop body for each of some items comes to an end with this result. -/
inductive Copies (engine : Engine) : String → List Node → List (Value × Value) → Context →
    Except TemplateError (List Node) × Context → Prop where
  | nil {name : String} {body : List Node} {ctx : Context} :
    Copies engine name body [] ctx (.ok [], ctx)
  /-- The copy for the first item fails. The scope of the item is closed. -/
  | failed {name : String} {body : List Node} {item : Value × Value}
      {list : List (Value × Value)} {ctx inner : Context} {rounds : Nat} {e : TemplateError} :
    Expands engine (.fragment body) (ctx.enter (bindings name item)).2 rounds (.error e, inner) →
    Copies engine name body (item :: list) ctx
      (.error e, inner.leave (ctx.enter (bindings name item)).1)
  | cons {name : String} {body : List Node} {item : Value × Value}
      {list : List (Value × Value)} {ctx inner ctx' : Context} {rounds : Nat} {copy : Node}
      {others : Except TemplateError (List Node)} :
    Expands engine (.fragment body) (ctx.enter (bindings name item)).2 rounds (.ok copy, inner) →
    Copies engine name body list (inner.leave (ctx.enter (bindings name item)).1) (others, ctx') →
    Copies engine name body (item :: list) ctx (others.map (copy.children ++ ·), ctx')

end

section Inversion

variable {m : Nat} {r : Except TemplateError Node × Context}

theorem expands_of_error {e : TemplateError} (h : Site.find? engine.layout root = .error e) :
    engine.Expands root ctx m r ↔ m = 1 ∧ r = (.error e, ctx) := by
  constructor
  · intro hr
    cases hr with
    | failed h' => cases h.symm.trans h'; exact ⟨rfl, rfl⟩
    | done h' => cases h.symm.trans h'
    | broken h' _ => cases h.symm.trans h'
    | round h' _ _ => cases h.symm.trans h'
  · rintro ⟨rfl, rfl⟩
    exact .failed h

theorem expands_of_none (h : Site.find? engine.layout root = .ok none) :
    engine.Expands root ctx m r ↔ m = 1 ∧ r = (engine.substitute ctx root, ctx) := by
  constructor
  · intro hr
    cases hr with
    | failed h' => cases h.symm.trans h'
    | done _ => exact ⟨rfl, rfl⟩
    | broken h' _ => cases h.symm.trans h'
    | round h' _ _ => cases h.symm.trans h'
  · rintro ⟨rfl, rfl⟩
    exact .done h

theorem expands_of_site {site : Site} (h : Site.find? engine.layout root = .ok (some site)) :
    engine.Expands root ctx m r ↔
      ∃ output ctx', engine.Copies site.header.binding site.body (items ctx site.header) ctx
        (output, ctx') ∧
      match output with
      | .error e => m = 1 ∧ r = (.error e, ctx')
      | .ok nodes => ∃ n, m = n + 1 ∧ engine.Expands (site.replace nodes root) ctx' n r := by
  constructor
  · intro hr
    cases hr with
    | failed h' => cases h.symm.trans h'
    | done h' => cases h.symm.trans h'
    | broken h' hc => cases h.symm.trans h'; exact ⟨_, _, hc, rfl, rfl⟩
    | round h' hc hrest => cases h.symm.trans h'; exact ⟨_, _, hc, _, rfl, hrest⟩
  · rintro ⟨output, ctx', hc, hr⟩
    cases output with
    | error e =>
      obtain ⟨rfl, rfl⟩ := hr
      exact .broken h hc
    | ok nodes =>
      obtain ⟨n, rfl, hrest⟩ := hr
      exact .round h hc hrest

end Inversion

/-- Runs for the copies of a loop body, if there is one from the body in every context and no
other. -/
theorem copies_iff {body : List Node}
    (h : ∀ ctx, ∃ n, ∀ m r, engine.Expands (.fragment body) ctx m r ↔
      m = n ∧ r = engine.expandIn (.fragment body) ctx)
    (name : String) (list : List (Value × Value)) (ctx : Context)
    (r : Except TemplateError (List Node) × Context) :
    engine.Copies name body list ctx r ↔ r = forItems name (engine.copyOf body) list ctx := by
  induction list generalizing ctx r with
  | nil =>
    constructor
    · rintro ⟨⟩
      rfl
    · rintro rfl
      exact .nil
  | cons item list ih =>
    obtain ⟨n, hn⟩ := h (ctx.enter (bindings name item)).2
    simp only [forItems, Context.within, copyOf]
    generalize engine.expandIn (.fragment body) (ctx.enter (bindings name item)).2 = out at hn
    obtain ⟨result, inner⟩ := out
    constructor
    · intro hc
      cases hc with
      | failed hcopy =>
        obtain ⟨-, hr⟩ := (hn _ _).1 hcopy
        cases hr
        rfl
      | cons hcopy hrest =>
        obtain ⟨-, hr⟩ := (hn _ _).1 hcopy
        cases hr
        have hothers := (ih _ _).1 hrest
        simp only [Except.map]
        rw [← hothers]
    · rintro rfl
      have hcopy := (hn n _).2 ⟨rfl, rfl⟩
      cases result with
      | error e => exact .failed hcopy
      | ok copy => exact .cons hcopy ((ih _ _).2 rfl)

/-- There is one run from every tree in every context. It gives what the expansion is, and has no
more rounds than there are loop starts, and the last. -/
theorem exists_rounds (engine : Engine) (root : Node) (ctx : Context) :
    ∃ rounds ≤ root.starts engine.layout.textContainer + 1, ∀ m r,
      engine.Expands root ctx m r ↔ m = rounds ∧ r = engine.expandIn root ctx := by
  induction root using run_induction engine.layout generalizing ctx with
  | failed root e he =>
    refine ⟨1, Nat.le_add_left 1 _, fun m r => ?_⟩
    rw [expands_of_error he, expandIn_eq, unroll, he]
  | done root hd =>
    refine ⟨1, Nat.le_add_left 1 _, fun m r => ?_⟩
    rw [expands_of_none hd, expandIn_eq, unroll, hd]
  | loop root site hs ihbody ihrest =>
    have hcopies := copies_iff (fun ctx => (ihbody ctx).imp fun _ h => h.2) site.header.binding
      (items ctx site.header) ctx
    simp only [expands_of_site hs, hcopies]
    rw [expandIn_eq, unroll, hs]
    simp only
    obtain ⟨output, ctx'⟩ := forItems site.header.binding (engine.copyOf site.body)
      (items ctx site.header) ctx
    cases output with
    | error e =>
      refine ⟨1, Nat.le_add_left 1 _, fun m r => ?_⟩
      constructor
      · rintro ⟨_, _, hout, hr⟩
        cases hout
        exact hr
      · intro hr
        exact ⟨_, _, rfl, hr⟩
    | ok nodes =>
      obtain ⟨n, hle, hn⟩ := ihrest nodes ctx'
      have hlt := Site.starts_replace_lt hs nodes
      refine ⟨n + 1, by omega, fun m r => ?_⟩
      constructor
      · rintro ⟨_, _, hout, hr⟩
        cases hout
        obtain ⟨n', rfl, hrest⟩ := hr
        obtain ⟨rfl, hr⟩ := (hn n' r).1 hrest
        exact ⟨rfl, hr⟩
      · rintro ⟨rfl, hr⟩
        exact ⟨_, _, rfl, n, rfl, (hn n r).2 ⟨rfl, hr⟩⟩

/-- A round that unrolls a loop leaves fewer loop starts. -/
theorem starts_lt_of_unroll {root' : Node} {ctx' : Context}
    (h : engine.unroll root ctx = (.ok (some root'), ctx')) :
    root'.starts engine.layout.textContainer < root.starts engine.layout.textContainer := by
  rw [unroll] at h
  split at h
  · cases h
  · cases h
  · rename_i site hs
    obtain ⟨hmap, -⟩ := Prod.mk.inj h
    obtain ⟨output, -, hroot⟩ := Except.map_eq_ok.1 hmap
    cases hroot
    exact Site.starts_replace_lt hs output

/-- Every expansion comes to an end, after no more rounds than there are loop starts and the last.
Each round but the last leaves fewer loop starts, and each loop body has fewer nodes outside
finished output than the tree it is cut from. -/
theorem expandIn_terminates (engine : Engine) (root : Node) (ctx : Context) :
    (∃ rounds ≤ root.starts engine.layout.textContainer + 1, ∀ m r,
      engine.Expands root ctx m r ↔ m = rounds ∧ r = engine.expandIn root ctx) ∧
    (∀ root' ctx', engine.unroll root ctx = (.ok (some root'), ctx') →
      root'.starts engine.layout.textContainer < root.starts engine.layout.textContainer) ∧
    ∀ site, Site.find? engine.layout root = .ok (some site) →
      (Node.fragment site.body).weight < root.weight :=
  ⟨exists_rounds engine root ctx, fun _ _ h => starts_lt_of_unroll h,
    fun _ h => (Site.find?_of h).weight_body_lt⟩

end Engine

end FormLetter
