import FormLetter.Proofs.Tag.Rendering
import Mathlib.Data.List.Forall2

/-!
# One pass over a text

A text is cut in one way into its leftmost tags and what stands between them (`cut_iff`). Rendering
puts the values of the tags in their places and looks at nothing else, and fails as the first tag
that has no value. So a text without open braces is rendered apart from what follows it
(`render_ofList_append`).
-/

namespace FormLetter

open FormLetter.Text

namespace Tag

/-- What may stand between the braces of a tag. -/
structure IsContent (content : List Char) : Prop where
  ne_nil : content ≠ []
  head_ne : content.head? ≠ some '/'
  not_mem : '\x7d' ∉ content

def StartsWithTag (cs : List Char) : Prop :=
  ∃ content rest, IsContent content ∧ cs = '\x7b' :: (content ++ '\x7d' :: rest)

def NoTagStarts (before after : List Char) : Prop :=
  ∀ front back, before = front ++ back → back ≠ [] → ¬StartsWithTag (back ++ after)

/-- The text is cut into pieces, each a text in which no tag starts and the tag after it, by its
content, and a last text in which no tag starts. -/
inductive Cut : List Char → List (List Char × List Char) → List Char → Prop where
  | last {cs : List Char} : NoTagStarts cs [] → Cut cs [] cs
  | tag {before content rest last : List Char} {pieces : List (List Char × List Char)} :
    NoTagStarts before ('\x7b' :: (content ++ '\x7d' :: rest)) → IsContent content →
    Cut rest pieces last →
    Cut (before ++ '\x7b' :: (content ++ '\x7d' :: rest)) ((before, content) :: pieces) last

theorem isContent_iff {content : List Char} :
    IsContent content ↔ startsTag content = true ∧ '\x7d' ∉ content := by
  constructor
  · rintro ⟨hne, hhead, hmem⟩
    cases content with
    | nil => exact absurd rfl hne
    | cons c cs => exact ⟨by simpa [startsTag] using hhead, hmem⟩
  · rintro ⟨hs, hmem⟩
    cases content with
    | nil => cases hs
    | cons c cs => exact ⟨List.cons_ne_nil c cs, by simpa [startsTag] using hs, hmem⟩

theorem readTag_iff {cs content rest : List Char} : readTag cs = some (content, rest) ↔
    cs = '\x7b' :: (content ++ '\x7d' :: rest) ∧ IsContent content := by
  rw [readTag_eq_some_iff, isContent_iff]

theorem not_startsWithTag_iff {cs : List Char} : ¬StartsWithTag cs ↔ readTag cs = none := by
  constructor
  · intro h
    cases hr : readTag cs with
    | none => rfl
    | some r =>
      obtain ⟨he, hc⟩ := readTag_iff.1 hr
      exact absurd ⟨r.1, r.2, hc, he⟩ h
  · rintro hr ⟨content, rest, hc, he⟩
    rw [readTag_iff.2 ⟨he, hc⟩] at hr
    cases hr

theorem noTagStarts_iff {before after : List Char} : NoTagStarts before after ↔
    ∀ front back, before = front ++ back → back ≠ [] → readTag (back ++ after) = none := by
  simp only [NoTagStarts, not_startsWithTag_iff]

theorem noTagStarts_nil_iff {cs : List Char} :
    NoTagStarts cs [] ↔ tagPattern.first? cs = none := by
  rw [noTagStarts_iff, Pattern.first?_eq_none_iff]
  constructor
  · intro h front back he
    cases back with
    | nil => exact Pattern.read_nil
    | cons c back =>
      have := h front (c :: back) he (List.cons_ne_nil c back)
      rwa [List.append_nil] at this
  · intro h front back he _
    rw [List.append_nil]
    exact h front back he

theorem first?_eq_some_iff_tag {cs before content rest : List Char} :
    tagPattern.first? cs = some ⟨before, content, rest⟩ ↔
      cs = before ++ '\x7b' :: (content ++ '\x7d' :: rest) ∧ IsContent content ∧
        NoTagStarts before ('\x7b' :: (content ++ '\x7d' :: rest)) := by
  rw [Pattern.first?_eq_some_iff, noTagStarts_iff]
  constructor
  · rintro ⟨suffix, rfl, hread, hfirst⟩
    obtain ⟨rfl, hc⟩ := readTag_iff.1 hread
    exact ⟨rfl, hc, hfirst⟩
  · rintro ⟨rfl, hc, hfirst⟩
    exact ⟨_, rfl, readTag_iff.2 ⟨rfl, hc⟩, hfirst⟩

/-- There is one way to cut a text. -/
theorem cut_iff {cs last : List Char} {pieces : List (List Char × List Char)} :
    Cut cs pieces last ↔ tagPattern.split cs = (pieces, last) := by
  constructor
  · intro h
    induction h with
    | last hn => exact Pattern.split_of_first?_eq_none (noTagStarts_nil_iff.1 hn)
    | tag hn hc _ ih =>
      rw [Pattern.split_of_first?_eq_some (first?_eq_some_iff_tag.2 ⟨rfl, hc, hn⟩), ih]
  · intro h
    fun_induction Pattern.split tagPattern cs generalizing pieces last with
    | case1 cs hnone =>
      cases h
      exact .last (noTagStarts_nil_iff.2 hnone)
    | case2 cs o hsome pieces' last' hsplit ih =>
      obtain ⟨before, content, rest⟩ := o
      cases h
      obtain ⟨rfl, hc, hn⟩ := first?_eq_some_iff_tag.1 hsome
      exact .tag hn hc (ih hsplit)

/-! ## Rendering -/

variable {registry : Registry} {ctx : Context}

theorem render_of_first?_eq_none {cs : List Char} (h : tagPattern.first? cs = none) :
    render registry ctx (String.ofList cs) = .ok (String.ofList cs) := by
  rw [render_eq, String.toList_ofList, Pattern.split_of_first?_eq_none h]
  rfl

theorem render_of_occursIn_eq_false {text : String}
    (h : tagPattern.occursIn text.toList = false) : render registry ctx text = .ok text := by
  have hfirst : tagPattern.first? text.toList = none :=
    Option.isNone_iff_eq_none.1 (Option.isSome_eq_false_iff.1 h)
  have hrender : render registry ctx (String.ofList text.toList) = _ :=
    render_of_first?_eq_none hfirst
  rwa [String.ofList_toList] at hrender

theorem render_of_first?_eq_some {cs : List Char} {o : Occurrence (List Char)}
    (h : tagPattern.first? cs = some o) : render registry ctx (String.ofList cs) =
      evalTag registry ctx (String.ofList o.value) >>= fun value =>
        (render registry ctx (String.ofList o.after)).map fun out =>
          String.ofList o.before ++ value ++ out := by
  rw [render_eq, render_eq, String.toList_ofList, String.toList_ofList,
    Pattern.split_of_first?_eq_some h, List.mapM_cons, renderPiece]
  cases evalTag registry ctx (String.ofList o.value) with
  | error e => rfl
  | ok value =>
    cases (tagPattern.split o.after).1.mapM (renderPiece registry ctx) with
    | error e => rfl
    | ok rendered =>
      refine congrArg Except.ok ?_
      simp only [String.join_cons, String.append_assoc]

/-- The pieces of a text with a value in the place of each tag. -/
def fill : List (List Char × List Char) → List String → List Char → String
  | (before, _) :: pieces, value :: values, last =>
    String.ofList before ++ value ++ fill pieces values last
  | _, _, last => String.ofList last

theorem render_of_cut {cs last : List Char} {pieces : List (List Char × List Char)}
    (h : Cut cs pieces last) {values : List String}
    (hv : List.Forall₂ (fun piece value => evalTag registry ctx (String.ofList piece.2) = .ok value)
      pieces values) :
    render registry ctx (String.ofList cs) = .ok (fill pieces values last) := by
  induction h generalizing values with
  | last hn =>
    cases hv
    exact render_of_first?_eq_none (noTagStarts_nil_iff.1 hn)
  | tag hn hc _ ih =>
    cases hv with
    | cons hvalue hv =>
      rw [render_of_first?_eq_some (first?_eq_some_iff_tag.2 ⟨rfl, hc, hn⟩), hvalue, ih hv]
      rfl

theorem render_of_cut_error {cs last : List Char} {pieces : List (List Char × List Char)}
    (h : Cut cs pieces last) {front back : List (List Char × List Char)}
    {piece : List Char × List Char} {e : TemplateError} (hp : pieces = front ++ piece :: back)
    (hfront : ∀ p ∈ front, ∃ value, evalTag registry ctx (String.ofList p.2) = .ok value)
    (he : evalTag registry ctx (String.ofList piece.2) = .error e) :
    render registry ctx (String.ofList cs) = .error e := by
  induction h generalizing front with
  | last hn => exact absurd hp (by simp)
  | tag hn hc _ ih =>
    rw [render_of_first?_eq_some (first?_eq_some_iff_tag.2 ⟨rfl, hc, hn⟩)]
    cases front with
    | nil =>
      obtain ⟨rfl, -⟩ := List.cons.inj hp
      rw [he]
      rfl
    | cons first front =>
      obtain ⟨rfl, hrest⟩ := List.cons.inj hp
      obtain ⟨⟨value, hvalue⟩, hfront⟩ := List.forall_mem_cons.1 hfront
      rw [hvalue, ih hrest hfront]
      rfl

/-- Every opening brace has a closing brace somewhere after it. -/
def BracesClose (cs : List Char) : Prop :=
  ∀ front back, cs = front ++ '{' :: back → '}' ∈ back

theorem BracesClose.of_suffix {cs rest : List Char} (h : BracesClose cs) (hs : rest <:+ cs) :
    BracesClose rest := by
  obtain ⟨before, rfl⟩ := hs
  rintro front back rfl
  exact h (before ++ front) back (List.append_assoc ..).symm

theorem readTag_append {cs content rest : List Char} (h : readTag cs = some (content, rest))
    (more : List Char) : readTag (cs ++ more) = some (content, rest ++ more) := by
  obtain ⟨rfl, hc⟩ := readTag_iff.1 h
  refine readTag_iff.2 ⟨?_, hc⟩
  rw [List.cons_append, List.append_assoc, List.cons_append]

theorem readTag_append_of_eq_none {c : Char} {cs : List Char} (hb : BracesClose (c :: cs))
    (h : readTag (c :: cs) = none) (more : List Char) : readTag (c :: (cs ++ more)) = none := by
  by_cases hopen : c = '{'
  · subst hopen
    have hm := hb [] cs rfl
    cases cs with
    | nil => cases hm
    | cons d ds =>
      refine readTag_eq_none ?_ (ds ++ more)
      rcases List.mem_cons.1 hm with hd | hm
      · exact .inr hd.symm
      · exact eq_of_readTag_eq_none h hm
  · exact readTag_eq_none_of_ne hopen (cs ++ more)

theorem render_cons_of_readTag_eq_none {c : Char} {cs : List Char} (h : readTag (c :: cs) = none) :
    render registry ctx (String.ofList (c :: cs)) =
      (render registry ctx (String.ofList cs)).map (String.ofList [c] ++ ·) := by
  have hfirst := Pattern.first?_of_read_eq_none (p := tagPattern) h
  cases hf : tagPattern.first? cs with
  | none =>
    rw [hf] at hfirst
    rw [render_of_first?_eq_none hf, render_of_first?_eq_none hfirst]
    have happend : String.ofList ([c] ++ cs) = String.ofList [c] ++ String.ofList cs :=
      String.ofList_append
    exact congrArg Except.ok happend
  | some o =>
    rw [hf] at hfirst
    rw [render_of_first?_eq_some hf, render_of_first?_eq_some hfirst]
    cases evalTag registry ctx (String.ofList o.value) with
    | error e => rfl
    | ok value =>
      cases render registry ctx (String.ofList o.after) with
      | error e => rfl
      | ok out =>
        refine congrArg Except.ok ?_
        simp only [← String.append_assoc]
        rw [← String.ofList_append, List.singleton_append]

/-- Rendering a text and then another one, the results put together. -/
def renderBoth (registry : Registry) (ctx : Context) (cs more : List Char) :
    Except TemplateError String :=
  render registry ctx (String.ofList cs) >>= fun out =>
    (render registry ctx (String.ofList more)).map (out ++ ·)

theorem renderBoth_of_first?_eq_some {cs more : List Char} {o : Occurrence (List Char)}
    (h : tagPattern.first? cs = some o) : renderBoth registry ctx cs more =
      evalTag registry ctx (String.ofList o.value) >>= fun value =>
        (renderBoth registry ctx o.after more).map fun out =>
          String.ofList o.before ++ value ++ out := by
  rw [renderBoth, render_of_first?_eq_some h]
  cases evalTag registry ctx (String.ofList o.value) with
  | error e => rfl
  | ok value =>
    rw [renderBoth]
    cases render registry ctx (String.ofList o.after) with
    | error e => rfl
    | ok out =>
      cases render registry ctx (String.ofList more) with
      | error e => rfl
      | ok rest => exact congrArg Except.ok (String.append_assoc ..)

theorem renderBoth_cons_of_readTag_eq_none {c : Char} {cs more : List Char}
    (h : readTag (c :: cs) = none) : renderBoth registry ctx (c :: cs) more =
      (renderBoth registry ctx cs more).map (String.ofList [c] ++ ·) := by
  rw [renderBoth, render_cons_of_readTag_eq_none h, renderBoth]
  cases render registry ctx (String.ofList cs) with
  | error e => rfl
  | ok out =>
    cases render registry ctx (String.ofList more) with
    | error e => rfl
    | ok rest => exact congrArg Except.ok (String.append_assoc ..)

/-- A text without open braces is rendered apart from what follows it. -/
theorem render_ofList_append {cs : List Char} (h : BracesClose cs) (more : List Char) :
    render registry ctx (String.ofList (cs ++ more)) = renderBoth registry ctx cs more := by
  generalize hl : cs.length = l
  induction l using Nat.strongRecOn generalizing cs with
  | ind l ih =>
    cases cs with
    | nil =>
      have hnil : render registry ctx (String.ofList []) = .ok "" :=
        render_of_first?_eq_none rfl
      rw [renderBoth, hnil, List.nil_append]
      cases render registry ctx (String.ofList more) with
      | error e => rfl
      | ok rest => exact congrArg Except.ok String.empty_append.symm
    | cons c cs =>
      cases hr : readTag (c :: cs) with
      | none =>
        have hrest := h.of_suffix (List.suffix_cons c cs)
        rw [List.cons_append, renderBoth_cons_of_readTag_eq_none hr,
          render_cons_of_readTag_eq_none (readTag_append_of_eq_none h hr more),
          ih cs.length (hl ▸ Nat.lt_succ_self _) hrest rfl]
      | some r =>
        obtain ⟨content, rest⟩ := r
        obtain ⟨he, -⟩ := readTag_iff.1 hr
        have hs : rest <:+ c :: cs := ⟨'\x7b' :: (content ++ ['\x7d']), by simp [he]⟩
        have hlt : rest.length < l := by
          rw [← hl, he]
          simp
          omega
        have hfirst := Pattern.first?_of_read_eq_some (p := tagPattern) hr
        have hmore : tagPattern.first? (c :: cs ++ more) = some ⟨[], content, rest ++ more⟩ :=
          Pattern.first?_of_read_eq_some (readTag_append hr more)
        rw [renderBoth_of_first?_eq_some hfirst, render_of_first?_eq_some hmore,
          ih rest.length hlt (h.of_suffix hs) rfl]

/-- Rendering is one pass from left to right. There is one cut of the text into its leftmost tags;
the rendered text is the text with the values of the tags in their places, as they are, and the
error is that of the first tag without a value. What follows a text without open braces is rendered
apart from it. -/
theorem render_single_pass (text : String) :
    (∃ pieces last, Cut text.toList pieces last ∧
      (∀ pieces' last', Cut text.toList pieces' last' → pieces' = pieces ∧ last' = last) ∧
      ∀ (registry : Registry) (ctx : Context),
        (∀ values, List.Forall₂ (fun piece value =>
            evalTag registry ctx (String.ofList piece.2) = .ok value) pieces values →
          render registry ctx text = .ok (fill pieces values last)) ∧
        (∀ front piece back e, pieces = front ++ piece :: back →
          (∀ p ∈ front, ∃ value, evalTag registry ctx (String.ofList p.2) = .ok value) →
          evalTag registry ctx (String.ofList piece.2) = .error e →
          render registry ctx text = .error e)) ∧
    (BracesClose text.toList → ∀ (registry : Registry) (ctx : Context) (more : String),
      render registry ctx (text ++ more) = do
        let out ← render registry ctx text
        let rest ← render registry ctx more
        return out ++ rest) := by
  constructor
  · have hcut : Cut text.toList (tagPattern.split text.toList).1 (tagPattern.split text.toList).2 :=
      cut_iff.2 rfl
    refine ⟨_, _, hcut, fun pieces' last' h => ?_, fun registry ctx => ⟨fun values hv => ?_,
      fun front piece back e hp hfront he => ?_⟩⟩
    · have h := cut_iff.1 h
      exact ⟨(congrArg Prod.fst h).symm, (congrArg Prod.snd h).symm⟩
    · have h := render_of_cut hcut hv
      rwa [String.ofList_toList] at h
    · have h := render_of_cut_error hcut hp hfront he
      rwa [String.ofList_toList] at h
  · intro hb registry ctx more
    have h : render registry ctx (String.ofList (text.toList ++ more.toList)) = _ :=
      render_ofList_append hb more.toList
    rw [String.ofList_append, String.ofList_toList, String.ofList_toList] at h
    rw [h, renderBoth, String.ofList_toList, String.ofList_toList]
    cases render registry ctx text with
    | error e => rfl
    | ok out =>
      cases render registry ctx more with
      | error e => rfl
      | ok rest => rfl

end Tag

end FormLetter
