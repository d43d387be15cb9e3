import FormLetter.Proofs.Loop.Reading
import FormLetter.Proofs.Tag.Calm
import FormLetter.Proofs.Tag.Pass

/-!
# Loop ends in rendered texts

A loop end is a pair of braces with no brace between them (`isSome_readEnd_iff`), so it does not go
beyond a text the braces of which close (`occursIn_append`), and a calm text has no part in one
(`occursIn_append_of_calm`). In a `Legible` text no pair of braces stands in another one and no tag
is a loop end. With data without braces such a text has a loop end after its tags are replaced
exactly if it has one before (`hasEnd_render`).
-/

namespace FormLetter.Loop

open FormLetter.Number FormLetter.Tag FormLetter.Text

variable {cs ds rest : List Char} {c : Char}

/-- A loop end as it may be written, by what stands between its braces. -/
structure EndMarker where
  opening : Blanks
  foreachWord : Spelling "foreach"
  closing : Blanks

namespace EndMarker

def content (m : EndMarker) : List Char :=
  m.opening.1 ++ '/' :: (m.foreachWord.1 ++ m.closing.1)

theorem isBraceless_of_simpleFold (h : simpleFold c ∈ "foreach".toList) : isBraceless c = true := by
  rw [isBraceless, Bool.and_eq_true, bne_iff_ne, bne_iff_ne]
  constructor
  · rintro rfl
    revert h
    decide +kernel
  · rintro rfl
    revert h
    decide +kernel

theorem isBraceless_of_isBlank (h : isBlank c = true) : isBraceless c = true := by
  rw [isBraceless, Bool.and_eq_true, bne_iff_ne, bne_iff_ne]
  constructor
  · rintro rfl
    exact absurd h (by decide)
  · rintro rfl
    exact absurd h (by decide)

theorem braceless_content (m : EndMarker) : ∀ c ∈ m.content, isBraceless c = true := by
  intro c hc
  rcases List.mem_append.1 hc with hc | hc
  · exact isBraceless_of_isBlank (m.opening.2 c hc)
  · rcases List.mem_cons.1 hc with rfl | hc
    · decide
    · rcases List.mem_append.1 hc with hc | hc
      · exact isBraceless_of_simpleFold (m.foreachWord.2 ▸ List.mem_map_of_mem hc)
      · exact isBraceless_of_isBlank (m.closing.2 c hc)

end EndMarker

theorem afterSlash_eq_some_iff : afterSlash cs = some rest ↔ cs = '/' :: rest := by
  constructor
  · intro h
    unfold afterSlash at h
    split at h
    · cases h
      rfl
    · cases h
  · rintro rfl
    rfl

theorem readEndInside_eq_some_iff : readEndInside cs = some rest ↔
    ∃ m : EndMarker, cs = m.content ++ '}' :: rest := by
  simp only [readEndInside, Option.bind_eq_bind, Option.bind_eq_some_iff]
  constructor
  · rintro ⟨c1, h1, c2, h2, h3⟩
    obtain ⟨opening, hcs⟩ := exists_blanks cs
    obtain ⟨closing, hclosing⟩ := exists_blanks c2
    obtain ⟨word, hword, rfl⟩ := (afterKeyword_eq_some_iff isKeyLetter_foreach).1 h2
    refine ⟨⟨opening, ⟨word, hword⟩, closing⟩, ?_⟩
    rw [hcs, afterSlash_eq_some_iff.1 h1, hclosing, afterBrace_eq_some_iff.1 h3]
    simp only [EndMarker.content, List.append_assoc, List.cons_append]
  · rintro ⟨m, rfl⟩
    have hslash : ∀ c ∈ ('/' :: (m.foreachWord.1 ++ (m.closing.1 ++ '}' :: rest))).head?,
        isBlank c = false := by
      rintro c ⟨⟩
      decide
    have hbrace : ∀ c ∈ ('}' :: rest).head?, isBlank c = false := by
      rintro c ⟨⟩
      decide
    simp only [EndMarker.content, List.append_assoc, List.cons_append]
    exact ⟨_, afterSlash_eq_some_iff.2 (m.opening.skipBlanks_append hslash), _,
      (afterKeyword_eq_some_iff isKeyLetter_foreach).2 ⟨_, m.foreachWord.2, rfl⟩,
      afterBrace_eq_some_iff.2 (m.closing.skipBlanks_append hbrace)⟩

/-- A loop end at the front of a text. -/
theorem isSome_readEnd_iff : (readEnd cs).isSome = true ↔
    ∃ (m : EndMarker) (rest : List Char), cs = '{' :: (m.content ++ '}' :: rest) := by
  unfold readEnd
  split
  · rw [Option.isSome_map, Option.isSome_iff_exists]
    simp only [readEndInside_eq_some_iff, List.cons.injEq, true_and]
    exact exists_comm
  · rename_i hne
    constructor
    · intro h
      cases h
    · rintro ⟨m, rest, rfl⟩
      exact absurd rfl (hne _)

/-! ## Texts next to each other -/

theorem isSome_readEnd_append_iff (h : c = '{' → '}' ∈ cs) (ds : List Char) :
    (readEnd (c :: cs ++ ds)).isSome = (readEnd (c :: cs)).isSome := by
  refine Bool.eq_iff_iff.2 ⟨fun hread => ?_, isSome_readEnd_append _ ds⟩
  obtain ⟨m, rest, he⟩ := isSome_readEnd_iff.1 hread
  rw [List.cons_append] at he
  obtain ⟨hc, htail⟩ := List.cons.inj he
  have hclose : '}' ∉ m.content := (not_mem_of_braceless m.braceless_content).2
  -- the brace that closes the loop end is the first one, so it is in the first text
  rcases List.append_eq_append_iff.1 htail with ⟨back, hcontent, -⟩ | ⟨back, hcs, hback⟩
  · exact absurd (hcontent ▸ List.mem_append_left back (h hc)) hclose
  · cases back with
    | nil =>
      rw [List.append_nil] at hcs
      exact absurd (hcs ▸ h hc) hclose
    | cons d back =>
      obtain ⟨rfl, -⟩ := List.cons.inj hback
      exact isSome_readEnd_iff.2 ⟨m, back, by rw [hc, hcs]⟩

/-- A loop end is in one of two texts if the braces of the first one close. -/
theorem occursIn_append (h : BracesClose cs) (ds : List Char) :
    endPattern.occursIn (cs ++ ds) = (endPattern.occursIn cs || endPattern.occursIn ds) := by
  induction cs with
  | nil => rfl
  | cons c cs ih =>
    have hread := isSome_readEnd_append_iff (fun hc => h [] cs (congrArg (· :: cs) hc)) ds
    rw [List.cons_append] at hread
    rw [List.cons_append, Pattern.occursIn_cons, Pattern.occursIn_cons,
      ih (h.of_suffix (List.suffix_cons c cs)), Bool.or_assoc]
    exact congrArg (· || _) hread

theorem isBlank_of_isCalming (h : isCalming c = true) : isBlank c = false ∧ c ≠ '/' := by
  simp only [isCalming, Bool.or_eq_true, beq_iff_eq] at h
  rcases h with (rfl | rfl) | h
  · decide
  · decide
  · refine ⟨isBlank_of_isDigit h, ?_⟩
    rintro rfl
    exact absurd h (by decide)

theorem readEnd_of_isCalming (h : isCalming c = true) (cs : List Char) :
    readEnd ('{' :: c :: cs) = none := by
  obtain ⟨hblank, hslash⟩ := isBlank_of_isCalming h
  refine Option.not_isSome_iff_eq_none.1 fun hread => ?_
  obtain ⟨⟨⟨opening, hopening⟩, word, closing⟩, rest, he⟩ := isSome_readEnd_iff.1 hread
  cases opening with
  | nil => exact hslash (List.cons.inj (List.cons.inj he).2).1
  | cons d opening =>
    obtain ⟨rfl, -⟩ := List.cons.inj (List.cons.inj he).2
    rw [hopening c (List.mem_cons_self ..)] at hblank
    cases hblank

theorem readEnd_of_ne (h : c ≠ '{') (cs : List Char) : readEnd (c :: cs) = none := by
  refine Option.not_isSome_iff_eq_none.1 fun hread => ?_
  obtain ⟨m, rest, he⟩ := isSome_readEnd_iff.1 hread
  exact h (List.cons.inj he).1

/-- A calm text makes no loop end with what follows. -/
theorem occursIn_append_of_calm (h : Calm cs) (ds : List Char) :
    endPattern.occursIn (cs ++ ds) = endPattern.occursIn ds := by
  induction h with
  | nil => rfl
  | @cons c cs hc _ ih =>
    have hread : endPattern.read (c :: (cs ++ ds)) = none := by
      by_cases hopen : c = '{'
      · obtain ⟨d, es, rfl, hd⟩ := hc hopen
        rw [hopen]
        exact readEnd_of_isCalming hd (es ++ ds)
      · exact readEnd_of_ne hopen (cs ++ ds)
    rw [List.cons_append, Pattern.occursIn_cons, hread, ih]
    rfl

/-- The brace after an opening one, if there is one, closes it. -/
def bracesAlternate : List Char → Bool
  | [] => true
  | c :: cs => (c != '{' || cs.find? (!isBraceless ·) != some '{') && bracesAlternate cs

/-- No pair of braces in the text stands in another one, and no tag of it is a loop end, as one with
white space before its slash would be. -/
def Legible (s : String) : Prop :=
  bracesAlternate s.toList = true ∧
    ∀ raw ∈ tagPattern.all s.toList, hasEnd (String.ofList (braced raw)) = false

instance : DecidablePred Legible := fun _ => inferInstanceAs (Decidable (_ ∧ _))

theorem find?_brace (h : '}' ∉ cs) (ds : List Char) :
    (cs ++ '{' :: ds).find? (!isBraceless ·) = some '{' := by
  induction cs with
  | nil => rfl
  | cons c cs ih =>
    rw [List.mem_cons, not_or] at h
    rw [List.cons_append, List.find?_cons]
    split
    · rename_i hbrace
      have hopen : c = '{' ∨ c = '}' := by simpa [isBraceless, or_iff_not_imp_left] using hbrace
      rw [hopen.resolve_right (Ne.symm h.1)]
    · exact ih h.2

theorem bracesAlternate_of_suffix (h : bracesAlternate cs = true) (hs : ds <:+ cs) :
    bracesAlternate ds = true := by
  obtain ⟨front, rfl⟩ := hs
  induction front with
  | nil => exact h
  | cons c front ih => exact ih (Bool.and_eq_true_iff.1 h).2

theorem mem_of_bracesAlternate (front back : List Char)
    (h : bracesAlternate (front ++ '{' :: (cs ++ '{' :: back)) = true) : '}' ∈ cs := by
  have hs := bracesAlternate_of_suffix h (List.suffix_append front _)
  by_contra hclose
  have hnext := (Bool.and_eq_true_iff.1 hs).1
  rw [find?_brace hclose back] at hnext
  exact absurd hnext (by decide)

theorem bracesClose_of_bracesAlternate (h : bracesAlternate (cs ++ '{' :: ds) = true) :
    BracesClose cs := by
  rintro front back rfl
  refine mem_of_bracesAlternate front ds ?_
  rwa [List.append_assoc, List.cons_append] at h

theorem not_mem_of_bracesAlternate {front content : List Char}
    (h : bracesAlternate (front ++ '{' :: (content ++ '}' :: rest)) = true)
    (hclose : '}' ∉ content) : '{' ∉ content := by
  intro hopen
  obtain ⟨cs, ds, rfl⟩ := List.append_of_mem hopen
  refine hclose (List.mem_append_left _ (mem_of_bracesAlternate front (ds ++ '}' :: rest) ?_))
  rwa [List.append_assoc, List.cons_append] at h

theorem bracesClose_braced {content : List Char} (h : '{' ∉ content) :
    BracesClose (braced content) := by
  intro front back he
  cases front with
  | nil =>
    obtain ⟨-, rfl⟩ := List.cons.inj he
    exact List.mem_append_right _ (List.mem_singleton_self _)
  | cons c front =>
    have hm : '{' ∈ content ++ ['}'] :=
      (List.cons.inj he).2 ▸ List.mem_append_right front (List.mem_cons_self ..)
    rcases List.mem_append.1 hm with hm | hm
    · exact absurd hm h
    · cases List.mem_singleton.1 hm

variable {registry : Registry} {ctx : Context}

theorem occursIn_render_of_cut {last : List Char} {pieces : List (List Char × List Char)}
    (hcut : Cut cs pieces last) (halternate : bracesAlternate cs = true)
    (hends : ∀ piece ∈ pieces, endPattern.occursIn (braced piece.2) = false)
    (hctx : ctx.IsBraceFree) (hregistry : registry.IsCalm) {out : String}
    (h : render registry ctx (String.ofList cs) = .ok out) :
    endPattern.occursIn out.toList = endPattern.occursIn cs := by
  induction hcut generalizing out with
  | last hn =>
    rw [render_of_first?_eq_none (noTagStarts_nil_iff.1 hn)] at h
    cases h
    rw [String.toList_ofList]
  | @tag before content rest last pieces hn hc _ ih =>
    rw [render_of_first?_eq_some (first?_eq_some_iff_tag.2 ⟨rfl, hc, hn⟩)] at h
    obtain ⟨value, hvalue, h⟩ := Except.bind_eq_ok.1 h
    obtain ⟨out, hout, rfl⟩ := Except.map_eq_ok.1 h
    obtain ⟨hend, hends⟩ := List.forall_mem_cons.1 hends
    have hopen := not_mem_of_bracesAlternate halternate hc.not_mem
    have hcalm := calm_evalTag hctx hregistry (by rwa [String.toList_ofList]) hvalue
    have hclose := bracesClose_of_bracesAlternate halternate
    have hrest : rest <:+ before ++ '{' :: (content ++ '}' :: rest) :=
      ⟨before ++ braced content, by simp [braced]⟩
    have hsplit : '{' :: (content ++ '}' :: rest) = braced content ++ rest := by simp [braced]
    rw [String.toList_append, String.toList_append, String.toList_ofList, List.append_assoc,
      occursIn_append hclose, occursIn_append_of_calm hcalm,
      ih (bracesAlternate_of_suffix halternate hrest) hends hout, hsplit, occursIn_append hclose,
      occursIn_append (bracesClose_braced hopen), hend, Bool.false_or]

/-- With data without braces replacing the tags of a legible text neither makes a loop end nor takes
one away. -/
theorem hasEnd_render (hctx : ctx.IsBraceFree) (hregistry : registry.IsCalm) {s out : String}
    (hs : Legible s) (h : render registry ctx s = .ok out) : hasEnd out = hasEnd s := by
  obtain ⟨halternate, hends⟩ := hs
  refine occursIn_render_of_cut (cut_iff.2 rfl) halternate (fun piece hpiece => ?_) hctx hregistry
    (by rwa [String.ofList_toList])
  have hend := hends piece.2 (List.mem_map_of_mem hpiece)
  rwa [hasEnd, String.toList_ofList] at hend

end FormLetter.Loop
