import FormLetter.Engine.Tags
import FormLetter.Proofs.Engine.Run
import FormLetter.Proofs.Loop.Group
import FormLetter.Proofs.Loop.Marker
import FormLetter.Proofs.Loop.Texts
import FormLetter.Proofs.Tag.Failing
import FormLetter.Proofs.Tree.Edit

/-!
# The listed tags and the evaluated ones

`Engine.tags` finds tags as pairs of braces with no brace between them, while rendering takes
everything from an opening brace to the next closing one. So the listing has the tags that are
evaluated just if none of these has an opening brace in it (`expressions_eq_evaluated_iff`): a tag
such as `{x {b}` is evaluated as a whole, but listed as `{b}`. A run fails as the first of the
evaluated tags that has no value (`error?_expand`), and where the tags that are listed have no
errors that is a failure of a filter (`isFilter_of_expand`).
-/

namespace FormLetter

open FormLetter.Text FormLetter.Loop

namespace Tag

variable {cs content rest : List Char}

theorem all_append_of_not_mem (h : '\x7b' ∉ cs) (rest : List Char) :
    tagPattern.all (cs ++ rest) = tagPattern.all rest := by
  induction cs with
  | nil => rfl
  | cons c cs ih =>
    obtain ⟨hc, hcs⟩ := not_or.1 (mt List.mem_cons.2 h)
    rw [List.cons_append, Pattern.all_cons_of_read_eq_none (readTag_eq_none_of_ne (Ne.symm hc) _),
      ih hcs]

theorem all_braces (h : ∀ c ∈ content, isBraceless c = true) (rest : List Char) :
    tagPattern.all ('\x7b' :: (content ++ '\x7d' :: rest)) =
      if startsTag content then content :: tagPattern.all rest else tagPattern.all rest := by
  obtain ⟨hopen, hclose⟩ := not_mem_of_braceless h
  cases hs : startsTag content with
  | true =>
    exact Pattern.all_cons_of_read_eq_some (readTag_eq_some_iff.2 ⟨rfl, hs, hclose⟩)
  | false =>
    have hread : readTag ('\x7b' :: (content ++ '\x7d' :: rest)) = none := by
      cases content with
      | nil => exact readTag_eq_none (.inr rfl) rest
      | cons c ds => exact readTag_eq_none (.inl (by simpa [startsTag] using hs)) _
    have hafter : tagPattern.read ('\x7d' :: rest) = none :=
      readTag_eq_none_of_ne (c := '\x7d') (by decide) rest
    rw [Pattern.all_cons_of_read_eq_none (p := tagPattern) hread, all_append_of_not_mem hopen,
      Pattern.all_cons_of_read_eq_none hafter, if_neg Bool.false_ne_true]

/-- The pairs of braces around what can start a tag are the tags of a text, if no tag of it has an
opening brace. -/
theorem filter_all_bracePattern (h : ∀ raw ∈ tagPattern.all cs, '\x7b' ∉ raw) :
    (bracePattern.all cs).filter startsTag = tagPattern.all cs := by
  generalize hn : cs.length = n
  induction n using Nat.strongRecOn generalizing cs with
  | ind n ih =>
    cases cs with
    | nil => rw [Pattern.all_nil, Pattern.all_nil]; rfl
    | cons c cs =>
      cases hb : readBraces (c :: cs) with
      | some r =>
        obtain ⟨raw, rest⟩ := r
        obtain ⟨hcs, hraw⟩ := readBraces_eq_some_iff.1 hb
        rw [Pattern.all_cons_of_read_eq_some (p := bracePattern) hb, List.filter_cons]
        rw [hcs, all_braces hraw] at h ⊢
        have hlt : rest.length < n := hn ▸ bracePattern.shorter hb
        cases hs : startsTag raw with
        | true =>
          rw [hs] at h
          simp only [↓reduceIte]
          rw [ih _ hlt (fun raw hm => h raw (List.mem_cons_of_mem _ hm)) rfl]
        | false =>
          rw [hs] at h
          exact ih _ hlt h rfl
      | none =>
        -- a tag without an opening brace would be a pair of braces
        have ht : readTag (c :: cs) = none := by
          rw [Option.eq_none_iff_forall_ne_some]
          rintro ⟨raw, rest⟩ ht
          obtain ⟨hcs, -, hclose⟩ := readTag_eq_some_iff.1 ht
          rw [Pattern.all_cons_of_read_eq_some (p := tagPattern) ht] at h
          have hopen := h raw (List.mem_cons_self ..)
          cases hb.symm.trans
            (readBraces_eq_some_iff.2 ⟨hcs, braceless_of_not_mem hopen hclose⟩)
        rw [Pattern.all_cons_of_read_eq_none (p := bracePattern) hb]
        rw [Pattern.all_cons_of_read_eq_none (p := tagPattern) ht] at h ⊢
        exact ih _ (hn ▸ Nat.lt_succ_self _) h rfl

theorem isInfix_of_mem_all (h : content ∈ bracePattern.all cs) :
    (∀ c ∈ content, isBraceless c = true) ∧ braced content <:+: cs := by
  obtain ⟨piece, hm, rfl⟩ := List.mem_map.1 h
  clear h
  fun_induction Pattern.split bracePattern cs with
  | case1 cs _ => cases hm
  | case2 cs o ho pieces last hs ih =>
    obtain ⟨found, rfl, hread⟩ := Pattern.first?_eq_some ho
    obtain ⟨rfl, hvalue⟩ := readBraces_eq_some_iff.1 hread
    rcases List.mem_cons.1 hm with rfl | hm
    · exact ⟨hvalue, o.before, o.after, by simp [braced]⟩
    · obtain ⟨hpiece, hinfix⟩ := ih (by rw [hs]; exact hm)
      refine ⟨hpiece, hinfix.trans ⟨o.before ++ braced o.value, [], by simp [braced]⟩⟩

end Tag

/-! ## Reports -/

open FormLetter.Tag

/-- What stands between the braces of a tag that is listed as an expression. -/
def TagReport.expression? (r : TagReport) : Option String :=
  match r.kind with
  | .expression => some (String.ofList r.tag.toList.tail.dropLast)
  | _ => none

/-- The report of an expression with this content. -/
def TagReport.ofExpression (filters : Registry) (content : List Char) : TagReport :=
  ⟨String.ofList (braced content), .expression,
    match Expression.parse filters (String.ofList content) with
    | .ok _ => none
    | .error e => some e⟩

namespace TagReport

variable {filters : Registry} {content : List Char}

theorem expression?_ofExpression :
    (ofExpression filters content).expression? = some (String.ofList content) := by
  simp [ofExpression, expression?, braced]

theorem exists_of_error_ofExpression (h : (ofExpression filters content).error = none) :
    ∃ expression, Expression.parse filters (String.ofList content) = .ok expression := by
  rw [ofExpression] at h
  split at h
  · exact ⟨_, ‹_›⟩
  · cases h

/-- What is listed for a pair of braces that is no loop marker. -/
theorem ofContent?_of_plain (hcontent : ∀ c ∈ content, isBraceless c = true)
    (hplain : IsPlain (String.ofList (braced content))) :
    ofContent? filters content =
      if startsTag content then some (ofExpression filters content) else none := by
  obtain ⟨hstart, hend⟩ := hplain
  have hnone : startIn? (String.ofList (braced content)) = none := by
    rw [← isSome_startIn?, Option.isSome_eq_false_iff, Option.isNone_iff_eq_none] at hstart
    exact hstart
  have hfirst : (tagPattern.first? (braced content)).map (·.value) =
      if startsTag content then some content else none := by
    rw [← Pattern.head?_all, braced, all_braces hcontent [], Pattern.all_nil]
    cases startsTag content <;> rfl
  rw [ofContent?, hnone, hend, String.toList_ofList]
  simp only [Bool.false_eq_true, ↓reduceIte]
  cases hs : startsTag content with
  | true =>
    rw [hs] at hfirst
    obtain ⟨o, ho, hvalue⟩ := Option.map_eq_some_iff.1 hfirst
    rw [ho, Option.map_some, hvalue]
    rfl
  | false =>
    rw [hs] at hfirst
    rw [Option.map_eq_none_iff.1 hfirst]
    rfl

/-- What is listed for a text without loop markers. -/
theorem filterMap_ofContent? (filters : Registry) {s : String} (h : IsPlain s) :
    (bracePattern.all s.toList).filterMap (ofContent? filters) =
      ((bracePattern.all s.toList).filter startsTag).map (ofExpression filters) := by
  have heach : ∀ content ∈ bracePattern.all s.toList, ofContent? filters content =
      if startsTag content then some (ofExpression filters content) else none := by
    intro content hm
    obtain ⟨hcontent, hinfix⟩ := isInfix_of_mem_all hm
    rw [← String.toList_ofList (l := braced content)] at hinfix
    exact ofContent?_of_plain hcontent
      ⟨hasStart_of_isInfix hinfix h.1, hasEnd_of_isInfix hinfix h.2⟩
  generalize bracePattern.all s.toList = contents at heach
  induction contents with
  | nil => rfl
  | cons content contents ih =>
    have hfirst := heach content (List.mem_cons_self ..)
    have hrest := ih fun content hm => heach content (List.mem_cons_of_mem _ hm)
    cases hs : startsTag content with
    | true =>
      rw [hs] at hfirst
      rw [List.filterMap_cons_some hfirst, hrest, List.filter_cons_of_pos hs, List.map_cons]
    | false =>
      rw [hs] at hfirst
      rw [List.filterMap_cons_none hfirst, hrest,
        List.filter_cons_of_neg (by rw [hs]; exact Bool.false_ne_true)]

end TagReport

namespace Engine

variable {engine : Engine} {template : Node}

/-- The contents of the expressions that are listed for a template. -/
def expressions (engine : Engine) (template : Node) : List String :=
  (engine.tags template).filterMap TagReport.expression?

/-- The contents of the tags that are evaluated when the texts of a template are rendered. -/
def evaluated (engine : Engine) (template : Node) : List String :=
  (template.strings engine.layout.textContainer).flatMap fun s =>
    (tagPattern.all s.toList).map String.ofList

theorem tags_eq (h : ∀ s ∈ template.strings engine.layout.textContainer, IsPlain s) :
    engine.tags template = (template.strings engine.layout.textContainer).flatMap fun s =>
      ((bracePattern.all s.toList).filter startsTag).map
        (TagReport.ofExpression engine.filters) := by
  have hmap := List.map_congr_left fun s hs =>
    TagReport.filterMap_ofContent? engine.filters (h s hs)
  rw [List.flatMap_def, ← hmap, ← List.flatMap_def, Node.strings, List.flatMap_map]
  rfl

theorem expressions_eq (h : ∀ s ∈ template.strings engine.layout.textContainer, IsPlain s) :
    engine.expressions template = (template.strings engine.layout.textContainer).flatMap fun s =>
      ((bracePattern.all s.toList).filter startsTag).map String.ofList := by
  rw [expressions, tags_eq h, List.filterMap_flatMap]
  simp only [List.filterMap_map, Function.comp_def, TagReport.expression?_ofExpression,
    List.filterMap_eq_map']

theorem mem_evaluated {content : String} : content ∈ engine.evaluated template ↔
    ∃ s ∈ template.strings engine.layout.textContainer, ∃ raw ∈ tagPattern.all s.toList,
      String.ofList raw = content := by
  simp only [evaluated, List.mem_flatMap, List.mem_map]

/-- Without opening braces in the tags of a template, the pairs of braces in its texts are just
these tags. -/
theorem filter_all_of_evaluated (h : ∀ content ∈ engine.evaluated template, '\x7b' ∉ content.toList)
    {s : String} (hs : s ∈ template.strings engine.layout.textContainer) :
    (bracePattern.all s.toList).filter startsTag = tagPattern.all s.toList := by
  refine filter_all_bracePattern fun raw hm => ?_
  have hraw := h (String.ofList raw) (mem_evaluated.2 ⟨s, hs, raw, hm, rfl⟩)
  rw [String.toList_ofList] at hraw
  exact hraw

theorem expressions_eq_evaluated_iff
    (h : ∀ s ∈ template.strings engine.layout.textContainer, IsPlain s) :
    engine.expressions template = engine.evaluated template ↔
      ∀ content ∈ engine.evaluated template, '\x7b' ∉ content.toList := by
  rw [expressions_eq h]
  constructor
  · intro heq content hm
    rw [← heq] at hm
    obtain ⟨s, -, hm⟩ := List.mem_flatMap.1 hm
    obtain ⟨raw, hraw, rfl⟩ := List.mem_map.1 hm
    rw [String.toList_ofList]
    exact (not_mem_of_braceless (isInfix_of_mem_all (List.mem_filter.1 hraw).1).1).1
  · intro hopen
    rw [evaluated, List.flatMap_def, List.flatMap_def]
    refine congrArg List.flatten (List.map_congr_left fun s hs => ?_)
    rw [filter_all_of_evaluated hopen hs]

/-- Substitution fails as the first of the texts that cannot be rendered. -/
theorem error?_substitute (engine : Engine) (ctx : Context) (template : Node) :
    Except.error? (engine.substitute ctx template) =
      (template.strings engine.layout.textContainer).findSome? fun s =>
        Except.error? (Tag.render engine.filters ctx s) := by
  have hfailure := Node.editTexts_snd (Tag.render engine.filters ctx)
    engine.layout.textContainer template
  have hstrings : ((template.texts engine.layout.textContainer).findSome? fun x =>
      Node.failure? (Tag.render engine.filters ctx) x.2) =
      (template.strings engine.layout.textContainer).findSome? fun s =>
        Except.error? (Tag.render engine.filters ctx s) := by
    rw [Node.strings, List.findSome?_map]
    exact congrArg (List.findSome? · _) (funext fun x => Node.failure?_eq _ x.2)
  rw [← hstrings, ← hfailure, substitute]
  obtain ⟨tree, failure⟩ := Node.editTexts (Tag.render engine.filters ctx)
    engine.layout.textContainer template
  cases failure <;> rfl

/-- A template without loops fails to expand as the first of its tags that has no value. -/
theorem error?_expand (h : ∀ s ∈ template.strings engine.layout.textContainer, IsPlain s)
    (ctx : Context) :
    Except.error? (engine.expand template ctx) =
      (engine.evaluated template).findSome? fun content =>
        Except.error? (evalTag engine.filters ctx content) := by
  have hnone : Site.find? engine.layout template = .ok none :=
    find?_eq_none fun x hx => (h x.2 (List.mem_map_of_mem hx)).1
  rw [expand_of_none hnone, error?_substitute, evaluated, findSome?_flatMap]
  refine congrArg (List.findSome? · _) (funext fun s => ?_)
  rw [error?_render, List.findSome?_map]
  rfl

/-- If no tag that is listed has an error, and there is no opening brace in a tag, then each tag
that is evaluated can be read. -/
theorem exists_parse_of_mem_evaluated
    (h : ∀ s ∈ template.strings engine.layout.textContainer, IsPlain s)
    (hopen : ∀ content ∈ engine.evaluated template, '\x7b' ∉ content.toList)
    (hvalid : ∀ r ∈ engine.tags template, r.error = none) {content : String}
    (hm : content ∈ engine.evaluated template) :
    ∃ expression, Expression.parse engine.filters content = .ok expression := by
  obtain ⟨s, hs, raw, hraw, rfl⟩ := mem_evaluated.1 hm
  rw [← filter_all_of_evaluated hopen hs] at hraw
  refine TagReport.exists_of_error_ofExpression (hvalid _ ?_)
  rw [tags_eq h]
  exact List.mem_flatMap.2 ⟨s, hs, List.mem_map_of_mem hraw⟩

/-- If no tag that is listed has an error, and there is no opening brace in a tag, then whatever
the data is, nothing goes wrong but in a filter. -/
theorem isFilter_of_expand (h : ∀ s ∈ template.strings engine.layout.textContainer, IsPlain s)
    (hopen : ∀ content ∈ engine.evaluated template, '\x7b' ∉ content.toList)
    (hvalid : ∀ r ∈ engine.tags template, r.error = none) {ctx : Context} {e : TemplateError}
    (he : engine.expand template ctx = .error e) : e.IsFilter := by
  have hfirst := (error?_expand h ctx).symm.trans (Except.error?_eq_some_iff.2 he)
  obtain ⟨content, hm, hcontent⟩ := List.exists_of_findSome?_eq_some hfirst
  obtain ⟨expression, hparse⟩ := exists_parse_of_mem_evaluated h hopen hvalid hm
  exact isFilter_of_evalTag hparse (Except.error?_eq_some_iff.1 hcontent)

/-- For a template without loop markers, the tags that are listed are those that are evaluated
exactly if none of these has an opening brace in it. They are evaluated in that order: expanding
fails, if it does, as the first of them that has no value. So if there is no such brace, a listing
without errors means that, whatever the data is, nothing goes wrong but in a filter. -/
theorem expressions_agree (engine : Engine) (template : Node)
    (h : ∀ s ∈ template.strings engine.layout.textContainer, IsPlain s) :
    (engine.expressions template = engine.evaluated template ↔
      ∀ content ∈ engine.evaluated template, '\x7b' ∉ content.toList) ∧
    (∀ ctx, Except.error? (engine.expand template ctx) =
      (engine.evaluated template).findSome? fun content =>
        Except.error? (evalTag engine.filters ctx content)) ∧
    ((∀ content ∈ engine.evaluated template, '\x7b' ∉ content.toList) →
      (∀ r ∈ engine.tags template, r.error = none) →
        ∀ ctx e, engine.expand template ctx = .error e → e.IsFilter) :=
  ⟨expressions_eq_evaluated_iff h, error?_expand h,
    fun hopen hvalid _ _ he => isFilter_of_expand h hopen hvalid he⟩

def salutation : Node :=
  .element "p" [] [.text "Dear {name | upper}, {} {/x} by {date *%Y*}", .text "\x7bunclosed"]

theorem salutation_agrees :
    let engine : Engine := ⟨.builtin, .html⟩
    (∀ s ∈ salutation.strings none, IsPlain s) ∧
      engine.expressions salutation = ["name | upper", "date *%Y*"] ∧
      engine.evaluated salutation = ["name | upper", "date *%Y*"] ∧
      ∀ ctx e, engine.expand salutation ctx = .error e → e.IsFilter := by
  intro engine
  have hplain : ∀ s ∈ salutation.strings none, IsPlain s := by
    rw [show salutation.strings none =
      ["Dear {name | upper}, {} {/x} by {date *%Y*}", "\x7bunclosed"] from rfl]
    simp only [List.forall_mem_cons]
    exact ⟨⟨by decide, by decide⟩, ⟨by decide, by decide⟩, List.forall_mem_nil _⟩
  have hevaluated : engine.evaluated salutation = ["name | upper", "date *%Y*"] := by
    decide +kernel
  have hopen : ∀ content ∈ engine.evaluated salutation, '\x7b' ∉ content.toList := by
    rw [hevaluated]
    decide
  obtain ⟨hlisted, -, hfilter⟩ := expressions_agree engine salutation hplain
  exact ⟨hplain, hevaluated ▸ hlisted.2 hopen, hevaluated, hfilter hopen (by decide +kernel)⟩

/-- A tag with an opening brace in it is listed as another tag, and its error is not. -/
theorem nested_expressions :
    let engine : Engine := ⟨.builtin, .html⟩
    let nested : Node := .element "body" [] [.element "p" [] [.text "\x7bx {b}"]]
    (∀ s ∈ nested.strings none, hasStart s = false ∧ hasEnd s = false) ∧
      engine.expressions nested = ["b"] ∧ engine.evaluated nested = ["x \x7bb"] ∧
      (∀ r ∈ engine.tags nested, r.error = none) ∧
      engine.expand nested .empty = .error (.unknownFilter "x") := by
  intro engine nested
  have herror : (match engine.expand nested .empty with
      | .ok _ => none
      | .error e => some e) = some (.unknownFilter "x") := by
    decide +kernel
  refine ⟨by decide, by decide +kernel, by decide +kernel, by decide +kernel, ?_⟩
  split at herror
  · cases herror
  · rename_i heq
    rw [heq, Option.some.inj herror]

end Engine

end FormLetter
