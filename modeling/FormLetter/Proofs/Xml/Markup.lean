import FormLetter.Proofs.Xml.Merge

/-!
# Markup in tags

Merging takes whole spans of markup out of tags and nothing else (`Thins`, `thins_merged`). What
stands between two braces is changed on its own, whatever is around it (`merged_tag`), and once
nothing is left to be taken out, nothing is taken out any more (`merged_merged`).
-/

namespace FormLetter.Xml

open FormLetter.Text

variable {c : Char} {before front inside back cs ds m : List Char}

theorem readAngles_eq_some_iff {rest : List Char} :
    readAngles cs = some (inside, rest) ↔ cs = '<' :: (inside ++ '>' :: rest) ∧ '>' ∉ inside := by
  have hno : (∀ c ∈ inside, (c != '>') = true) ↔ '>' ∉ inside := by
    simp only [bne_iff_ne]
    exact ⟨fun h hm => h _ hm rfl, fun h c hc => ne_of_mem_of_not_mem hc h⟩
  unfold readAngles
  split
  · rw [enclosed?_eq_some_iff (by decide), List.cons.injEq, hno]
    simp only [true_and]
  · rename_i hne
    constructor
    · intro h
      cases h
    · rintro ⟨rfl, -⟩
      exact absurd rfl (hne _)

theorem withoutMarkup_nil : withoutMarkup [] = [] := Pattern.replace_nil

theorem withoutMarkup_cons (hc : c ≠ '<') (cs : List Char) :
    withoutMarkup (c :: cs) = c :: withoutMarkup cs := by
  refine Pattern.replace_cons_of_read_eq_none (p := markupPattern) ?_
  refine Option.eq_none_iff_forall_ne_some.2 fun ⟨inside, rest⟩ h => ?_
  exact hc (List.cons.inj (readAngles_eq_some_iff.1 h).1).1

theorem withoutMarkup_markup (hm : '>' ∉ m) (cs : List Char) :
    withoutMarkup ('<' :: (m ++ '>' :: cs)) = withoutMarkup cs :=
  Pattern.replace_cons_of_read_eq_some (p := markupPattern) (readAngles_eq_some_iff.2 ⟨rfl, hm⟩)

theorem withoutMarkup_of_not_mem (h : '>' ∉ cs) : withoutMarkup cs = cs := by
  refine Pattern.replace_of_first?_eq_none (Pattern.first?_eq_none_iff.2 fun front back he => ?_)
  refine Option.eq_none_iff_forall_ne_some.2 fun ⟨inside, rest⟩ hread => h ?_
  rw [he, (readAngles_eq_some_iff.1 hread).1]
  simp

/-- A text is characters, spans of markup, and markup at the end that is not closed. -/
theorem markup_induction {motive : List Char → Prop} (nil : motive [])
    (char : ∀ c cs, c ≠ '<' → motive cs → motive (c :: cs))
    (span : ∀ m cs, '>' ∉ m → motive cs → motive ('<' :: (m ++ '>' :: cs)))
    (unclosed : ∀ cs, '>' ∉ cs → motive ('<' :: cs)) (cs : List Char) : motive cs := by
  induction hn : cs.length using Nat.strongRecOn generalizing cs with
  | ind n ih =>
    cases cs with
    | nil => exact nil
    | cons c cs =>
      rw [List.length_cons] at hn
      by_cases hc : c = '<'
      · subst hc
        by_cases hclose : '>' ∈ cs
        · obtain ⟨m, rest, rfl, hm⟩ := List.eq_append_cons_of_mem hclose
          rw [List.length_append, List.length_cons] at hn
          exact span m rest hm (ih _ (by omega) rest rfl)
        · exact unclosed cs hclose
      · exact char c cs hc (ih _ (by omega) cs rfl)

theorem withoutMarkup_withoutMarkup (cs : List Char) :
    withoutMarkup (withoutMarkup cs) = withoutMarkup cs := by
  induction cs using markup_induction with
  | nil => rw [withoutMarkup_nil, withoutMarkup_nil]
  | char c cs hc ih => rw [withoutMarkup_cons hc, withoutMarkup_cons hc, ih]
  | span m cs hm ih => rw [withoutMarkup_markup hm, ih]
  | unclosed cs hcs =>
    have hnot : '>' ∉ '<' :: cs := by simp [hcs]
    rw [withoutMarkup_of_not_mem hnot, withoutMarkup_of_not_mem hnot]

theorem withoutMarkup_sublist (cs : List Char) : (withoutMarkup cs).Sublist cs := by
  induction cs using markup_induction with
  | nil => exact List.sublist_nil.2 withoutMarkup_nil
  | char c cs hc ih =>
    rw [withoutMarkup_cons hc]
    exact ih.cons_cons c
  | span m cs hm ih =>
    rw [withoutMarkup_markup hm]
    exact (((ih.cons '>').trans (List.sublist_append_right m _)).cons '<')
  | unclosed cs hcs =>
    have hsame : withoutMarkup ('<' :: cs) = '<' :: cs := withoutMarkup_of_not_mem (by simp [hcs])
    exact hsame.symm ▸ List.Sublist.refl _

theorem NoBraces.withoutMarkup (h : NoBraces cs) : NoBraces (withoutMarkup cs) :=
  fun _ hc => h _ ((withoutMarkup_sublist cs).subset hc)

/-! ## Tags -/

/-- The characters of a text with the markup inside of tags taken out. -/
def merged (cs : List Char) : List Char :=
  bracePattern.replace (fun inside => braced (withoutMarkup inside)) cs

theorem toList_mergeTags (x : String) : (mergeTags x).toList = merged x.toList :=
  String.toList_ofList

/-- An opening brace ends all that is read in front of it. -/
theorem readBraces_append_opening (hne : cs ≠ []) (ds : List Char) :
    readBraces (cs ++ '\x7b' :: ds) =
      (readBraces cs).map fun (inside, rest) => (inside, rest ++ '\x7b' :: ds) := by
  refine Option.ext fun ⟨inside, rest⟩ => ?_
  rw [readBraces_eq_some_iff, Option.map_eq_some_iff]
  constructor
  · rintro ⟨he, hinside⟩
    obtain ⟨c, cs, rfl⟩ := List.exists_cons_of_ne_nil hne
    obtain ⟨rfl, htail⟩ := List.cons.inj he
    rcases List.append_eq_append_iff.1 htail with ⟨more, rfl, hmore⟩ | ⟨more, rfl, hmore⟩
    · cases more with
      | nil => exact absurd (List.cons.inj hmore).1 (by decide)
      | cons d more =>
        obtain ⟨rfl, -⟩ := List.cons.inj hmore
        exact absurd (hinside '\x7b' (by simp)) (by decide)
    · cases more with
      | nil => exact absurd (List.cons.inj hmore).1 (by decide)
      | cons d more =>
        obtain ⟨rfl, rfl⟩ := List.cons.inj hmore
        exact ⟨(inside, more), readBraces_eq_some_iff.2 ⟨rfl, hinside⟩, rfl⟩
  · rintro ⟨⟨inside', rest'⟩, hread, he⟩
    cases he
    obtain ⟨rfl, hinside⟩ := readBraces_eq_some_iff.1 hread
    exact ⟨by simp, hinside⟩

/-- A tag is merged on its own, whatever is around it. -/
theorem merged_tag (front : List Char) (h : NoBraces inside) (back : List Char) :
    merged (front ++ '\x7b' :: (inside ++ '\x7d' :: back)) =
      merged front ++ '\x7b' :: (withoutMarkup inside ++ '\x7d' :: merged back) := by
  have hread : bracePattern.read ('\x7b' :: (inside ++ '\x7d' :: back)) = some (inside, back) :=
    readBraces_eq_some_iff.2 ⟨rfl, h⟩
  rw [merged, Pattern.replace_append fun cs hne => readBraces_append_opening hne _,
    Pattern.replace_cons_of_read_eq_some hread, braced, merged, merged]
  simp

/-- A text is plain, or it has a first tag. -/
theorem tag_induction {motive : List Char → Prop} (plain : ∀ cs, merged cs = cs → motive cs)
    (tag : ∀ front inside back, merged front = front → NoBraces inside → motive back →
      motive (front ++ '\x7b' :: (inside ++ '\x7d' :: back))) (cs : List Char) : motive cs := by
  induction hn : cs.length using Nat.strongRecOn generalizing cs with
  | ind n ih =>
    cases hf : bracePattern.first? cs with
    | none => exact plain cs (Pattern.replace_of_first?_eq_none hf)
    | some o =>
      obtain ⟨front, inside, back⟩ := o
      obtain ⟨found, rfl, hread⟩ := Pattern.first?_eq_some hf
      obtain ⟨rfl, hinside⟩ := readBraces_eq_some_iff.1 hread
      have hfront : merged front = front := by
        have hmerged := merged_tag front hinside back
        rw [merged, Pattern.replace_of_first?_eq_some hf, braced, ← merged] at hmerged
        refine (List.append_cancel_right (hmerged.trans ?_)).symm
        simp
      refine tag front inside back hfront hinside (ih _ ?_ back rfl)
      simp only [List.length_append, List.length_cons] at hn
      omega

/-- Once merged, a text stays as it is. -/
theorem merged_merged (cs : List Char) : merged (merged cs) = merged cs := by
  induction cs using tag_induction with
  | plain cs hcs => rw [hcs, hcs]
  | tag front inside back hfront hinside ih =>
    rw [merged_tag front hinside, hfront, merged_tag front hinside.withoutMarkup, hfront,
      withoutMarkup_withoutMarkup, ih]

/-- Unless nothing is taken out, there is a first tag with markup inside. -/
theorem merged_cases (cs : List Char) : merged cs = cs ∨ ∃ front inside back,
    cs = front ++ '\x7b' :: (inside ++ '\x7d' :: back) ∧ NoBraces inside ∧
      withoutMarkup inside ≠ inside ∧
        merged cs = front ++ '\x7b' :: (withoutMarkup inside ++ '\x7d' :: merged back) := by
  induction cs using tag_induction with
  | plain cs hcs => exact .inl hcs
  | tag front inside back hfront hinside ih =>
    rw [merged_tag front hinside, hfront]
    by_cases hsame : withoutMarkup inside = inside
    · rw [hsame]
      rcases ih with hback | ⟨front', inside', back', rfl, hinside', hne, hback⟩
      · exact .inl (by rw [hback])
      · refine .inr ⟨front ++ '\x7b' :: (inside ++ '\x7d' :: front'), inside', back', ?_, hinside',
          hne, ?_⟩
        · simp
        · rw [hback]
          simp
    · exact .inr ⟨front, inside, back, rfl, hinside, hsame, rfl⟩

/-! ## What is taken out -/

def IsSpan (m : List Char) : Prop :=
  ∃ inside, m = '<' :: (inside ++ ['>']) ∧ '>' ∉ inside ∧ NoBraces inside

theorem IsSpan.noBraces (h : IsSpan m) : NoBraces m := by
  obtain ⟨inside, rfl, -, hinside⟩ := h
  exact noBraces_cons.2 ⟨rfl, noBraces_append.2 ⟨hinside, by decide⟩⟩

/-- A place between an opening and a closing brace, with no brace in between. -/
def InTag (before after : List Char) : Prop :=
  (∃ front inside, before = front ++ '\x7b' :: inside ∧ NoBraces inside) ∧
    ∃ inside back, after = inside ++ '\x7d' :: back ∧ NoBraces inside

/-- What is left of a text, behind some other, when spans in tags are taken out. -/
inductive Thins : List Char → List Char → List Char → Prop where
  | nil {before : List Char} : Thins before [] []
  | keep {before cs ds : List Char} {c : Char} :
    Thins (before ++ [c]) cs ds → Thins before (c :: cs) (c :: ds)
  | drop {before m cs ds : List Char} :
    IsSpan m → InTag before cs → Thins (before ++ m) cs ds → Thins before (m ++ cs) ds

namespace Thins

theorem append (xs : List Char) (h : Thins (before ++ xs) cs ds) :
    Thins before (xs ++ cs) (xs ++ ds) := by
  induction xs generalizing before with
  | nil => rwa [List.append_nil] at h
  | cons x xs ih =>
    rw [List.append_cons] at h
    exact .keep (ih h)

theorem refl (before cs : List Char) : Thins before cs cs := by
  have hnil : Thins (before ++ cs) [] [] := .nil
  have h := append cs hnil
  rwa [List.append_nil] at h

/-- Braces stay, in their order. -/
theorem filter_eq (h : Thins before cs ds) :
    ds.filter (!isBraceless ·) = cs.filter (!isBraceless ·) := by
  induction h with
  | nil => rfl
  | keep _ ih => rw [List.filter_cons, List.filter_cons, ih]
  | @drop before m cs ds hm _ _ ih =>
    have hspan : m.filter (!isBraceless ·) = [] :=
      List.filter_eq_nil_iff.2 fun c hc => by simp [hm.noBraces c hc]
    rw [List.filter_append, hspan, ih]
    rfl

/-- In a tag the markup goes. -/
theorem withoutMarkup {done : List Char} (hdone : NoBraces done) (hinside : NoBraces inside)
    (h : Thins (front ++ '\x7b' :: (done ++ inside)) ('\x7d' :: back) ds) :
    Thins (front ++ '\x7b' :: done) (inside ++ '\x7d' :: back)
      (Xml.withoutMarkup inside ++ ds) := by
  induction inside using markup_induction generalizing done with
  | nil =>
    rw [withoutMarkup_nil]
    rwa [List.append_nil] at h
  | char c cs hc ih =>
    obtain ⟨hfree, hcs⟩ := noBraces_cons.1 hinside
    have hmore : NoBraces (done ++ [c]) :=
      noBraces_append.2 ⟨hdone, noBraces_cons.2 ⟨hfree, List.forall_mem_nil _⟩⟩
    rw [withoutMarkup_cons hc]
    refine .keep ?_
    rw [List.append_assoc, List.cons_append]
    exact ih hmore hcs (by simpa using h)
  | span m cs hm ih =>
    have hsplit : '<' :: (m ++ '>' :: cs) = '<' :: (m ++ ['>']) ++ cs := by simp
    rw [hsplit] at h hinside ⊢
    obtain ⟨hspan, hcs⟩ := noBraces_append.1 hinside
    have hfree : NoBraces m := (noBraces_append.1 (noBraces_cons.1 hspan).2).1
    rw [← hsplit, withoutMarkup_markup hm, hsplit, List.append_assoc]
    refine .drop ⟨m, rfl, hm, hfree⟩ ⟨⟨front, done, rfl, hdone⟩, cs, back, rfl, hcs⟩ ?_
    rw [List.append_assoc, List.cons_append]
    exact ih (noBraces_append.2 ⟨hdone, hspan⟩) hcs (by simpa using h)
  | unclosed cs hcs =>
    have hnot : '>' ∉ '<' :: cs := by simp [hcs]
    rw [withoutMarkup_of_not_mem hnot]
    exact append _ (by simpa using h)

end Thins

/-- Merging takes spans in tags out, and nothing else. -/
theorem thins_merged (before cs : List Char) : Thins before cs (merged cs) := by
  induction cs using tag_induction generalizing before with
  | plain cs hcs =>
    rw [hcs]
    exact .refl before cs
  | tag front inside back hfront hinside ih =>
    rw [merged_tag front hinside, hfront]
    refine .append front (.keep ?_)
    have hback : Thins ((before ++ front) ++ '\x7b' :: ([] ++ inside)) ('\x7d' :: back)
        ('\x7d' :: merged back) := .keep (ih _)
    exact Thins.withoutMarkup (List.forall_mem_nil _) hinside hback

/-! ## Split tags -/

theorem withoutMarkup_append_of_not_mem (h : '<' ∉ front) (cs : List Char) :
    withoutMarkup (front ++ cs) = front ++ withoutMarkup cs := by
  induction front with
  | nil => rfl
  | cons c front ih =>
    obtain ⟨hc, hfront⟩ := not_or.1 (mt List.mem_cons.2 h)
    rw [List.cons_append, withoutMarkup_cons (Ne.symm hc), ih hfront]
    rfl

theorem withoutMarkup_spans_append {spans : List (List Char)} (h : ∀ m ∈ spans, IsSpan m)
    (cs : List Char) : withoutMarkup (spans.flatten ++ cs) = withoutMarkup cs := by
  induction spans with
  | nil => rfl
  | cons m spans ih =>
    obtain ⟨⟨inside, rfl, hclose, -⟩, hspans⟩ := List.forall_mem_cons.1 h
    rw [List.flatten_cons, List.append_assoc, List.cons_append, List.append_assoc,
      List.singleton_append, withoutMarkup_markup hclose, ih hspans]

def IsPiece (p : List Char) : Prop := NoBraces p ∧ '<' ∉ p ∧ '>' ∉ p

instance (p : List Char) : Decidable (IsPiece p) := inferInstanceAs (Decidable (_ ∧ _))

/-- A tag content in pieces, with the spans of markup in front of each piece but the first. -/
structure SplitContent where
  first : List Char
  others : List (List (List Char) × List Char)

namespace SplitContent

/-- Each piece is one, and so is each span. -/
def IsProper (s : SplitContent) : Prop :=
  IsPiece s.first ∧ ∀ o ∈ s.others, (∀ m ∈ o.1, IsSpan m) ∧ IsPiece o.2

/-- The content as it is stored. -/
def written (s : SplitContent) : List Char :=
  s.first ++ s.others.flatMap fun (spans, p) => spans.flatten ++ p

/-- The content as one text. -/
def joined (s : SplitContent) : List Char := s.first ++ s.others.flatMap (·.2)

theorem noBraces_written {s : SplitContent} (h : s.IsProper) : NoBraces s.written := by
  refine noBraces_append.2 ⟨h.1.1, noBraces_flatMap.2 fun o ho => ?_⟩
  obtain ⟨hspans, hpiece⟩ := h.2 o ho
  refine noBraces_append.2 ⟨fun c hc => ?_, hpiece.1⟩
  obtain ⟨m, hm, hc⟩ := List.mem_flatten.1 hc
  exact (hspans m hm).noBraces c hc

theorem withoutMarkup_written {s : SplitContent} (h : s.IsProper) :
    withoutMarkup s.written = s.joined := by
  obtain ⟨first, others⟩ := s
  obtain ⟨hfirst, hothers⟩ := h
  rw [written, joined, withoutMarkup_append_of_not_mem hfirst.2.1]
  congr 1
  clear hfirst
  induction others with
  | nil => exact withoutMarkup_nil
  | cons o others ih =>
    obtain ⟨⟨hspans, hpiece⟩, hrest⟩ := List.forall_mem_cons.1 hothers
    rw [List.flatMap_cons, List.flatMap_cons, List.append_assoc, withoutMarkup_spans_append hspans,
      withoutMarkup_append_of_not_mem hpiece.2.1, ih hrest]

end SplitContent

/-- A tag is put together however markup splits it, whatever is around it. In any text merging takes
out spans of markup in tags, and nothing else, so no braces; and what is merged stays as it is. -/
theorem mergeTags_split :
    (∀ (front back : String) (s : SplitContent), s.IsProper →
      mergeTags (front ++ "\x7b" ++ String.ofList s.written ++ "\x7d" ++ back) =
        mergeTags front ++ "\x7b" ++ String.ofList s.joined ++ "\x7d" ++ mergeTags back) ∧
    ∀ x : String, Thins [] x.toList (mergeTags x).toList ∧
      (mergeTags x).toList.filter (!isBraceless ·) = x.toList.filter (!isBraceless ·) ∧
      mergeTags (mergeTags x) = mergeTags x := by
  refine ⟨fun front back s hs => ?_, fun x => ?_⟩
  · have hmerged := merged_tag front.toList (SplitContent.noBraces_written hs) back.toList
    rw [SplitContent.withoutMarkup_written hs] at hmerged
    refine String.toList_injective ?_
    simpa [toList_mergeTags] using hmerged
  · have hthins : Thins [] x.toList (mergeTags x).toList := by
      rw [toList_mergeTags]
      exact thins_merged [] x.toList
    refine ⟨hthins, hthins.filter_eq, String.toList_injective ?_⟩
    rw [toList_mergeTags, toList_mergeTags, merged_merged]

/-- A name in two runs, behind a brace that is not closed and in front of another split tag. -/
theorem name_mergeTags :
    let name : SplitContent := ⟨"na".toList, [(["</w:t>".toList, "<w:t>".toList], "me".toList)]⟩
    let front := "<w:t>\x7b Dear "
    let back := "\x7bda<w:br/>te\x7d</w:t>"
    name.IsProper ∧ String.ofList name.written = "na</w:t><w:t>me" ∧
      String.ofList name.joined = "name" ∧
      mergeTags (front ++ "\x7b" ++ String.ofList name.written ++ "\x7d" ++ back) =
        mergeTags front ++ "\x7b" ++ String.ofList name.joined ++ "\x7d" ++ mergeTags back := by
  intro name front back
  have hclosing : IsSpan "</w:t>".toList := ⟨"/w:t".toList, by decide, by decide, by decide⟩
  have hopening : IsSpan "<w:t>".toList := ⟨"w:t".toList, by decide, by decide, by decide⟩
  have hpieces : IsPiece "na".toList ∧ IsPiece "me".toList := by decide
  have hname : name.IsProper := by
    refine ⟨hpieces.1, List.forall_mem_singleton.2 ⟨?_, hpieces.2⟩⟩
    exact List.forall_mem_cons.2 ⟨hclosing, List.forall_mem_singleton.2 hopening⟩
  exact ⟨hname, by decide, by decide, mergeTags_split.1 front back name hname⟩

end FormLetter.Xml
