import FormLetter.Proofs.Context.BraceFree
import FormLetter.Proofs.Filter.Calm
import FormLetter.Proofs.Tag.Grammar
import FormLetter.Tag.Evaluation

/-!
# Values of tags without braces

The literals of a tag are made of its characters (`Reads.name_subset`). So on data without braces a
tag that has none inside has a calm value, if the filters are calm (`calm_evalTag`).
-/

namespace FormLetter.Tag

open FormLetter.Json FormLetter.Text

variable {cs rest : List Char} {ls : List Lexeme} {t : Token}

theorem unpair_subset (w : List Char) : unpair w ⊆ w := by
  fun_induction unpair w with
  | case1 => exact List.Subset.refl _
  | case2 cs ih => exact List.subset_cons_of_subset _ (List.cons_subset_cons '*' ih)
  | case3 c cs _ ih => exact List.cons_subset_cons c ih

theorem name_ofWord_subset (w : List Char) : (Token.ofWord w).name.toList ⊆ w := by
  unfold Token.ofWord
  split
  · rw [Token.name, String.toList_ofList]
    exact List.subset_cons_self ..
  · rw [Token.name, String.toList_ofList]
    exact List.Subset.refl _

/-- The characters of a token are characters of the tag. -/
theorem Reads.name_subset (h : Reads cs ls rest) (ht : .token t ∈ ls) : t.name.toList ⊆ cs := by
  induction h with
  | nil => cases ht
  | blank _ _ ih => exact List.subset_cons_of_subset _ (ih ht)
  | bar _ ih =>
    rcases List.mem_cons.1 ht with he | ht
    · cases he
    · exact List.subset_cons_of_subset _ (ih ht)
  | @literal w cs _ _ _ _ ih =>
    refine List.subset_cons_of_subset _ ?_
    rcases List.mem_cons.1 ht with he | ht
    · cases he
      rw [Token.name, String.toList_ofList]
      exact List.Subset.trans (unpair_subset w) (List.subset_append_left ..)
    · exact List.Subset.trans (ih ht)
        (List.subset_append_of_subset_right w (List.subset_cons_self ..))
  | @word w cs _ _ _ _ _ ih =>
    rcases List.mem_cons.1 ht with he | ht
    · cases he
      exact List.Subset.trans (name_ofWord_subset w) (List.subset_append_left ..)
    · exact List.subset_append_of_subset_right w (ih ht)

/-! ## Expressions -/

/-- No literal of the segment has an opening brace. -/
def Segment.IsCalm : Segment → Prop
  | .variable _ => True
  | .literal text => '{' ∉ text.toList
  | .call _ arguments => ∀ text, .literal text ∈ arguments → '{' ∉ text.toList

theorem isCalm_toSegment (h : '{' ∉ t.name.toList) : t.toSegment.IsCalm := by
  cases t
  · trivial
  · exact h
  · trivial

theorem name_of_toArgument {literal : String} (h : t.toArgument = .literal literal) :
    t.name = literal := by
  cases t
  · cases h
  · exact Argument.literal.inj h
  · exact Argument.literal.inj h

theorem isCalm_ofTokens {registry : Registry} {piped : Bool} {arguments : List Token} {s : Segment}
    (ht : '{' ∉ t.name.toList) (harguments : ∀ u ∈ arguments, '{' ∉ u.name.toList)
    (h : Segment.ofTokens registry piped t arguments = .ok s) : s.IsCalm := by
  unfold Segment.ofTokens at h
  split at h
  · cases h
    intro text htext
    obtain ⟨u, hu, he⟩ := List.mem_map.1 htext
    rw [← name_of_toArgument he]
    exact harguments u hu
  · split at h
    · cases h
      exact isCalm_toSegment ht
    · cases h

theorem isCalm_segmentsOfTokens {registry : Registry} {piped : Bool} {lists : List (List Token)}
    {segments : List Segment} (hlists : ∀ tokens ∈ lists, ∀ u ∈ tokens, '{' ∉ u.name.toList)
    (h : segmentsOfTokens registry piped lists = .ok segments) : ∀ s ∈ segments, s.IsCalm := by
  fun_induction segmentsOfTokens registry piped lists generalizing segments with
  | case1 =>
    cases h
    exact List.forall_mem_nil _
  | case2 piped rest ih => exact ih (List.forall_mem_cons.1 hlists).2 h
  | case3 piped head arguments rest ih =>
    obtain ⟨hfirst, hrest⟩ := List.forall_mem_cons.1 hlists
    obtain ⟨s, hs, h⟩ := Except.bind_eq_ok.1 h
    obtain ⟨others, hothers, h⟩ := Except.bind_eq_ok.1 h
    cases h
    obtain ⟨hhead, harguments⟩ := List.forall_mem_cons.1 hfirst
    exact List.forall_mem_cons.2 ⟨isCalm_ofTokens hhead harguments hs, ih hrest hothers⟩

theorem isCalm_parse {registry : Registry} {raw : String} {e : Expression}
    (hraw : '{' ∉ raw.toList) (h : Expression.parse registry raw = .ok e) :
    ∀ s ∈ e.segments, s.IsCalm := by
  obtain ⟨ls, hread, hsegments⟩ := exists_reads_of_parse h
  exact isCalm_segmentsOfTokens (fun tokens htokens u hu hm =>
    hraw (hread.name_subset (mem_of_mem_segmentsOf htokens hu) hm)) hsegments

section Evaluation

variable {registry : Registry} {ctx : Context} {input : Option Value} {s : Segment}

theorem calm_resolve (hctx : ctx.IsBraceFree) (path : String) :
    Calm (ctx.resolve path).plain.toList :=
  (hctx.resolve path).calm_plain

theorem Segment.IsCalm.eval (hs : s.IsCalm) (hctx : ctx.IsBraceFree) (hregistry : registry.IsCalm)
    (hinput : ∀ v, input = some v → Calm v.plain.toList) {v : Value}
    (h : s.eval registry ctx input = .ok v) : Calm v.plain.toList := by
  cases s
  · cases h
    exact calm_resolve hctx _
  · cases h
    exact calm_of_not_mem hs
  · rename_i name arguments
    rw [Segment.eval] at h
    split at h
    · cases h
    · rename_i f hf
      split at h
      · rename_i text happly
        cases h
        refine hregistry name f hf ctx _ input text hctx (fun w hw => ?_) hinput happly
        obtain ⟨a, ha, rfl⟩ := List.mem_map.1 hw
        cases a
        · exact calm_resolve hctx _
        · exact calm_of_not_mem (hs _ ha)
      · cases h

theorem calm_foldlM_eval (hctx : ctx.IsBraceFree) (hregistry : registry.IsCalm)
    {segments : List Segment} (hsegments : ∀ s ∈ segments, s.IsCalm)
    (hinput : ∀ v, input = some v → Calm v.plain.toList) {result : Option Value}
    (h : segments.foldlM (fun input s => do return some (← s.eval registry ctx input)) input =
      .ok result) : ∀ v, result = some v → Calm v.plain.toList := by
  induction segments generalizing input with
  | nil =>
    cases h
    exact hinput
  | cons s segments ih =>
    obtain ⟨hs, hrest⟩ := List.forall_mem_cons.1 hsegments
    rw [List.foldlM_cons] at h
    obtain ⟨next, hnext, h⟩ := Except.bind_eq_ok.1 h
    obtain ⟨v, hv, hnext⟩ := Except.bind_eq_ok.1 hnext
    cases hnext
    refine ih hrest (fun w hw => ?_) h
    cases hw
    exact hs.eval hctx hregistry hinput hv

/-- On data without braces a tag without one has a calm value. -/
theorem calm_evalTag (hctx : ctx.IsBraceFree) (hregistry : registry.IsCalm) {raw value : String}
    (hraw : '{' ∉ raw.toList) (h : evalTag registry ctx raw = .ok value) : Calm value.toList := by
  obtain ⟨e, he, h⟩ := Except.bind_eq_ok.1 h
  obtain ⟨result, hresult, h⟩ := Except.bind_eq_ok.1 h
  cases h
  have hcalm := calm_foldlM_eval hctx hregistry (isCalm_parse hraw he) (by simp) hresult
  cases result with
  | none => exact .nil
  | some v => exact hcalm v rfl

end Evaluation

end FormLetter.Tag
