import FormLetter.Proofs.Failure
import FormLetter.Proofs.Text.Occurrence
import FormLetter.Proofs.Text.Run
import FormLetter.Tag.Evaluation

/-!
# Rendered texts

A rendered text has no tags of its own if the values in it bring no opening brace
(`occursIn_render`): what stands before a tag of the template is `Inert`, it makes no tag with
whatever may follow, and what stands after the last is no tag.
-/

namespace FormLetter

open FormLetter.Text

namespace Tag

def startsTag : List Char → Bool
  | [] => false
  | c :: _ => c != '/'

/-- A tag is an opening brace, content that can start a tag, and the next closing brace. -/
theorem readTag_eq_some_iff {cs content rest : List Char} :
    readTag cs = some (content, rest) ↔
      cs = '\x7b' :: (content ++ '\x7d' :: rest) ∧ startsTag content = true ∧
        '\x7d' ∉ content := by
  constructor
  · intro h
    unfold readTag at h
    split at h
    · rename_i c ds
      split at h
      · cases h
      · rename_i hc
        obtain ⟨⟨inside, rest'⟩, he, heq⟩ := Option.map_eq_some_iff.1 h
        cases heq
        obtain ⟨rfl, hinside⟩ := (enclosed?_eq_some_iff (by decide)).1 he
        refine ⟨rfl, by simpa [startsTag] using fun h => hc (.inl h), fun hm => ?_⟩
        rcases List.mem_cons.1 hm with h | hm
        · exact hc (.inr h.symm)
        · exact absurd (hinside _ hm) (by decide)
    · cases h
  · rintro ⟨rfl, hs, hm⟩
    cases content with
    | nil => cases hs
    | cons c ds =>
      have hslash : c ≠ '/' := by simpa [startsTag] using hs
      have hclose : c ≠ '\x7d' := fun h => hm (h ▸ List.mem_cons_self ..)
      have hinside : ∀ d ∈ ds, isTagChar d = true := fun d hd =>
        bne_iff_ne.2 fun h => hm (h ▸ List.mem_cons_of_mem _ hd)
      have hread : enclosed? isTagChar '\x7d' (ds ++ '\x7d' :: rest) = some (ds, rest) :=
        (enclosed?_eq_some_iff rfl).2 ⟨rfl, hinside⟩
      rw [List.cons_append, readTag, if_neg (not_or.2 ⟨hslash, hclose⟩), hread]
      rfl

theorem readTag_isSome {c : Char} {cs : List Char} (h1 : c ≠ '/') (h2 : c ≠ '\x7d')
    (h : '\x7d' ∈ cs) : (readTag ('\x7b' :: c :: cs)).isSome = true := by
  obtain ⟨inside, rest, rfl, hclose⟩ := List.eq_append_cons_of_mem h
  have hread : readTag ('\x7b' :: c :: (inside ++ '\x7d' :: rest)) = some (c :: inside, rest) :=
    readTag_eq_some_iff.2 ⟨rfl, bne_iff_ne.2 h1, by simp [hclose, Ne.symm h2]⟩
  rw [hread]
  rfl

/-- Where a closing brace follows, only a slash or another brace keeps an opening one from making a
tag. -/
theorem eq_of_readTag_eq_none {c : Char} {cs : List Char} (h : readTag ('{' :: c :: cs) = none)
    (hm : '}' ∈ cs) : c = '/' ∨ c = '}' := by
  refine Classical.byContradiction fun hc => ?_
  have := readTag_isSome (fun h => hc (.inl h)) (fun h => hc (.inr h)) hm
  rw [h] at this
  cases this

theorem readTag_eq_some {cs content rest : List Char} (h : readTag cs = some (content, rest)) :
    ∃ c ds, cs = '\x7b' :: c :: ds ∧ '\x7d' ∈ ds := by
  obtain ⟨rfl, hs, -⟩ := readTag_eq_some_iff.1 h
  cases content with
  | nil => cases hs
  | cons c inside => exact ⟨c, inside ++ '\x7d' :: rest, rfl, by simp⟩

theorem readTag_eq_none_of_ne {c : Char} (h : c ≠ '\x7b') (cs : List Char) :
    readTag (c :: cs) = none := by
  unfold readTag
  split
  · rename_i heq
    exact absurd (List.cons.inj heq).1 h
  · rfl

theorem readTag_eq_none {d : Char} (h : d = '/' ∨ d = '\x7d') (cs : List Char) :
    readTag ('\x7b' :: d :: cs) = none := by
  rw [readTag, if_pos h]

/-! ## Texts that make no tags -/

/-- Every opening brace is followed by a slash or a closing brace. -/
def Inert : List Char → Prop
  | [] => True
  | c :: cs => (c = '\x7b' → ∃ d ds, cs = d :: ds ∧ (d = '/' ∨ d = '\x7d')) ∧ Inert cs

theorem Inert.append {as bs : List Char} (ha : Inert as) (hb : Inert bs) : Inert (as ++ bs) := by
  induction as with
  | nil => exact hb
  | cons a as ih =>
    refine ⟨fun h => ?_, ih ha.2⟩
    obtain ⟨d, ds, rfl, hd⟩ := ha.1 h
    exact ⟨d, ds ++ bs, rfl, hd⟩

theorem inert_of_not_mem {cs : List Char} (h : '\x7b' ∉ cs) : Inert cs := by
  induction cs with
  | nil => trivial
  | cons c cs ih =>
    rw [List.mem_cons, not_or] at h
    exact ⟨fun hc => absurd hc.symm h.1, ih h.2⟩

theorem Inert.occursIn_append {as : List Char} (h : Inert as) (bs : List Char) :
    tagPattern.occursIn (as ++ bs) = tagPattern.occursIn bs := by
  induction as with
  | nil => rfl
  | cons a as ih =>
    have hr : tagPattern.read (a :: (as ++ bs)) = none := by
      by_cases ha : a = '\x7b'
      · obtain ⟨d, ds, rfl, hd⟩ := h.1 ha
        rw [ha]
        exact readTag_eq_none hd (ds ++ bs)
      · exact readTag_eq_none_of_ne ha (as ++ bs)
    rw [List.cons_append, Pattern.occursIn_cons, hr, ih h.2]
    rfl

/-- What stands before the first tag is inert: a brace in it that is followed by anything else would
make a tag up to the closing brace of that one. -/
theorem inert_before {cs : List Char} {o : Occurrence (List Char)}
    (h : tagPattern.first? cs = some o) : Inert o.before := by
  induction cs generalizing o with
  | nil => cases h
  | cons c cs ih =>
    cases hr : tagPattern.read (c :: cs) with
    | some r =>
      rw [Pattern.first?, hr] at h
      cases h
      trivial
    | none =>
      rw [Pattern.first?_of_read_eq_none hr] at h
      obtain ⟨o', ho', rfl⟩ := Option.map_eq_some_iff.1 h
      refine ⟨fun hc => ?_, ih ho'⟩
      obtain ⟨rest, hrest, hread⟩ := Pattern.first?_eq_some ho'
      obtain ⟨d, ds, rfl, hmem⟩ := readTag_eq_some hread
      subst hc hrest
      cases hb : o'.before with
      | nil =>
        -- the tag would follow right after this brace and be read with it
        rw [hb, List.nil_append] at hr
        have hd : '\x7b' = '/' ∨ '\x7b' = '\x7d' :=
          eq_of_readTag_eq_none hr (List.mem_cons_of_mem d hmem)
        exact absurd hd (by decide)
      | cons e es =>
        rw [hb] at hr
        exact ⟨e, es, rfl, eq_of_readTag_eq_none hr
          (List.mem_append_right es (List.mem_cons_of_mem '{' (List.mem_cons_of_mem d hmem)))⟩

theorem inert_of_mem_split {cs : List Char} {piece : List Char × List Char}
    (h : piece ∈ (tagPattern.split cs).1) : Inert piece.1 := by
  fun_induction Pattern.split tagPattern cs with
  | case1 cs _ => cases h
  | case2 cs o ho pieces last hs ih =>
    rcases List.mem_cons.1 h with rfl | h
    · exact inert_before ho
    · exact ih (by rw [hs]; exact h)

def renderPiece (registry : Registry) (ctx : Context) :
    List Char × List Char → Except TemplateError String
  | (before, content) =>
    (evalTag registry ctx (String.ofList content)).map (String.ofList before ++ ·)

theorem render_eq (registry : Registry) (ctx : Context) (text : String) :
    render registry ctx text =
      ((tagPattern.split text.toList).1.mapM (renderPiece registry ctx)).map fun rendered =>
        String.join rendered ++ String.ofList (tagPattern.split text.toList).2 := by
  have hpiece : renderPiece registry ctx = fun (before, content) => do
      return String.ofList before ++ (← evalTag registry ctx (String.ofList content)) := by
    funext ⟨before, content⟩
    simp only [renderPiece]
    cases evalTag registry ctx (String.ofList content) <;> rfl
  rw [render, ← hpiece]
  obtain ⟨pieces, last⟩ := tagPattern.split text.toList
  simp only
  cases pieces.mapM (renderPiece registry ctx) <;> rfl

/-- A text fails to render as the first of its tags that has no value. -/
theorem error?_render (registry : Registry) (ctx : Context) (text : String) :
    Except.error? (render registry ctx text) = (tagPattern.all text.toList).findSome? fun raw =>
      Except.error? (evalTag registry ctx (String.ofList raw)) := by
  rw [render_eq, Except.error?_map, error?_mapM, Pattern.all, List.findSome?_map]
  refine congrArg (List.findSome? · _) (funext fun piece => ?_)
  obtain ⟨before, content⟩ := piece
  rw [renderPiece, Except.error?_map]
  rfl

/-- A rendered text has no tags if no value in it has an opening brace. -/
theorem occursIn_render {registry : Registry} {ctx : Context} {text out : String}
    (h : render registry ctx text = .ok out)
    (hv : ∀ raw ∈ tagPattern.all text.toList, ∀ v,
      evalTag registry ctx (String.ofList raw) = .ok v → '\x7b' ∉ v.toList) :
    tagPattern.occursIn out.toList = false := by
  rw [render_eq] at h
  obtain ⟨rendered, hm, rfl⟩ := Except.map_eq_ok.1 h
  clear h
  have hpieces : ∀ piece ∈ (tagPattern.split text.toList).1, Inert piece.1 ∧
      ∀ v, evalTag registry ctx (String.ofList piece.2) = .ok v → '\x7b' ∉ v.toList :=
    fun piece hp => ⟨inert_of_mem_split hp, hv piece.2 (List.mem_map_of_mem hp)⟩
  suffices hi : Inert (String.join rendered).toList by
    rw [String.toList_append, hi.occursIn_append, String.toList_ofList]
    exact Pattern.occursIn_split_snd _
  rw [String.toList_join]
  generalize (tagPattern.split text.toList).1 = pieces at hm hpieces
  induction pieces generalizing rendered with
  | nil => cases hm; trivial
  | cons piece pieces ih =>
    obtain ⟨before, content⟩ := piece
    rw [List.mapM_cons] at hm
    obtain ⟨first, hfirst, hm⟩ := Except.bind_eq_ok.1 hm
    obtain ⟨others, hothers, hm⟩ := Except.bind_eq_ok.1 hm
    cases hm
    obtain ⟨v, hval, rfl⟩ := Except.map_eq_ok.1 hfirst
    obtain ⟨hbefore, hvalue⟩ := hpieces _ (List.mem_cons_self ..)
    rw [List.flatMap_cons, String.toList_append, String.toList_ofList]
    exact (hbefore.append (inert_of_not_mem (hvalue v hval))).append
      (ih others hothers fun piece hp => hpieces piece (List.mem_cons_of_mem _ hp))

end Tag

end FormLetter
