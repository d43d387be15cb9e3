import FormLetter.Proofs.Loop.Marker
import FormLetter.Proofs.Text.Folding

/-!
# How loop starts are read

A `StartMarker` is a loop start as it may be written: keywords in any case, white space where it may
or has to stand, and two names. A loop start is read from the front of a text exactly if one is
written there (`readStart_eq_some_iff`). So the loop start of a text is the leftmost one that is
written in it (`startIn?_leftmost`).
-/

namespace FormLetter.Loop

open FormLetter.Text

abbrev Blanks := { cs : List Char // ∀ c ∈ cs, isBlank c = true }

abbrev Gap := { cs : List Char // cs ≠ [] ∧ ∀ c ∈ cs, isBlank c = true }

/-- A keyword in any case, which is what folds to it. -/
abbrev Spelling (keyword : String) := { cs : List Char // cs.map simpleFold = keyword.toList }

abbrev Name := { cs : List Char // cs ≠ [] ∧ ∀ c ∈ cs, isBlank c = false ∧ c ≠ '\x7d' }

/-- A loop start as it may be written, by what stands between its braces. -/
structure StartMarker where
  opening : Blanks
  foreachWord : Spelling "foreach"
  afterForeach : Gap
  collection : Name
  beforeAs : Gap
  asWord : Spelling "as"
  afterAs : Gap
  binding : Name
  closing : Blanks

namespace StartMarker

def text (m : StartMarker) : List Char :=
  '\x7b' :: (m.opening.1 ++ m.foreachWord.1 ++ m.afterForeach.1 ++ m.collection.1 ++
    m.beforeAs.1 ++ m.asWord.1 ++ m.afterAs.1 ++ m.binding.1 ++ m.closing.1 ++ ['\x7d'])

/-- What is to be read from it. -/
def header (m : StartMarker) : Header :=
  ⟨String.ofList m.collection.1, String.ofList m.binding.1, String.ofList m.text⟩

/-- The loop start is written in the text right after `before`, and none begins before it. -/
structure IsFirst (m : StartMarker) (before : List Char) (text : String) : Prop where
  written : before ++ m.text <+: text.toList
  le_of_written : ∀ (m' : StartMarker) (before' : List Char),
    before' ++ m'.text <+: text.toList → before.length ≤ before'.length

end StartMarker

variable {cs taken rest : List Char}

/-- A letter that a keyword may have: `k` has a variant past ASCII that is not looked for. -/
def isKeyLetter (k : Char) : Bool := k.isLower && k != 'k'

theorem isKeyLetter_foreach : ∀ k ∈ "foreach".toList, isKeyLetter k = true :=
  List.all_eq_true.1 (by decide)

theorem isKeyLetter_as : ∀ k ∈ "as".toList, isKeyLetter k = true :=
  List.all_eq_true.1 (by decide)

theorem isLower_of_isKeyLetter {k : Char} (hk : isKeyLetter k = true) : k.isLower = true :=
  (Bool.and_eq_true_iff.1 hk).1

theorem isCaseOf_iff {k c : Char} (hk : isKeyLetter k = true) :
    isCaseOf k c = true ↔ simpleFold c = k := by
  have hne : k ≠ 'k' := bne_iff_ne.1 (Bool.and_eq_true_iff.1 hk).2
  rw [simpleFold_eq_iff (isLower_of_isKeyLetter hk), isCaseOf, longS]
  simp [hne]

theorem afterKeyword_eq_some_iff {ks : List Char} (hks : ∀ k ∈ ks, isKeyLetter k = true) :
    afterKeyword ks cs = some rest ↔
      ∃ word, word.map simpleFold = ks ∧ cs = word ++ rest := by
  induction ks generalizing cs with
  | nil => simp [afterKeyword]
  | cons k ks ih =>
    obtain ⟨hk, hks⟩ := List.forall_mem_cons.1 hks
    constructor
    · intro h
      cases cs with
      | nil => cases h
      | cons c cs =>
        rw [afterKeyword] at h
        split at h
        · rename_i hc
          obtain ⟨word, rfl, rfl⟩ := (ih hks).1 h
          refine ⟨c :: word, ?_, rfl⟩
          rw [List.map_cons, (isCaseOf_iff hk).1 hc]
        · cases h
    · rintro ⟨word, hword, rfl⟩
      obtain ⟨c, word, rfl, hc, hword⟩ := List.map_eq_cons_iff.1 hword
      rw [List.cons_append, afterKeyword, if_pos ((isCaseOf_iff hk).2 hc)]
      exact (ih hks).2 ⟨word, hword, rfl⟩

theorem isNameChar_iff {c : Char} :
    isNameChar c = true ↔ isBlank c = false ∧ c ≠ '\x7d' := by
  rw [isNameChar, Bool.and_eq_true, Bool.not_eq_true', bne_iff_ne]

def Name.ofChars (cs : List Char) (h : cs ≠ [] ∧ ∀ c ∈ cs, isNameChar c = true) : Name :=
  ⟨cs, h.1, fun c hc => isNameChar_iff.1 (h.2 c hc)⟩

theorem forall_head?_append {P : Char → Prop} (hne : cs ≠ []) (h : ∀ c ∈ cs, P c)
    (rest : List Char) : ∀ c ∈ (cs ++ rest).head?, P c := by
  obtain ⟨d, ds, rfl⟩ := List.exists_cons_of_ne_nil hne
  rintro c ⟨⟩
  exact h d (List.mem_cons_self ..)

theorem Gap.isNameChar_head? (gap : Gap) (rest : List Char) :
    ∀ c ∈ (gap.1 ++ rest).head?, isNameChar c = false := by
  refine forall_head?_append gap.2.1 (fun c hc => ?_) rest
  rw [isNameChar, gap.2.2 c hc]
  rfl

theorem Name.isBlank_head? (name : Name) (rest : List Char) :
    ∀ c ∈ (name.1 ++ rest).head?, isBlank c = false :=
  forall_head?_append name.2.1 (fun c hc => (name.2.2 c hc).1) rest

theorem Spelling.isBlank_head? {keyword : String} (hne : keyword.toList ≠ [])
    (hks : ∀ k ∈ keyword.toList, isKeyLetter k = true) (word : Spelling keyword)
    (rest : List Char) : ∀ c ∈ (word.1 ++ rest).head?, isBlank c = false := by
  refine forall_head?_append ?_ (fun c hc => ?_) rest
  · intro hnil
    exact hne (word.2 ▸ congrArg (List.map simpleFold) hnil)
  · have hmem : simpleFold c ∈ keyword.toList := word.2 ▸ List.mem_map_of_mem hc
    exact isBlank_eq_false_of_simpleFold (isLower_of_isKeyLetter (hks _ hmem)) rfl

theorem Blanks.isNameChar_head? (blanks : Blanks) (rest : List Char) :
    ∀ c ∈ (blanks.1 ++ '\x7d' :: rest).head?, isNameChar c = false := by
  by_cases hnil : blanks.1 = []
  · rw [hnil]
    rintro c ⟨⟩
    decide
  · exact Gap.isNameChar_head? ⟨blanks.1, hnil, blanks.2⟩ ('\x7d' :: rest)

theorem Blanks.skipBlanks_append (blanks : Blanks) (h : ∀ c ∈ rest.head?, isBlank c = false) :
    skipBlanks (blanks.1 ++ rest) = rest :=
  dropWhile_append_of_head? blanks.2 h

theorem Gap.run1_append (gap : Gap) (h : ∀ c ∈ rest.head?, isBlank c = false) :
    run1 isBlank (gap.1 ++ rest) = some (gap.1, rest) :=
  run1_eq_some_iff.2 ⟨rfl, gap.2, h⟩

theorem Name.run1_append (name : Name) (h : ∀ c ∈ rest.head?, isNameChar c = false) :
    run1 isNameChar (name.1 ++ rest) = some (name.1, rest) :=
  run1_eq_some_iff.2 ⟨rfl, ⟨name.2.1, fun c hc => isNameChar_iff.2 (name.2.2 c hc)⟩, h⟩

theorem exists_blanks (cs : List Char) : ∃ blanks : Blanks, cs = blanks.1 ++ skipBlanks cs :=
  ⟨⟨(run isBlank cs).1, forall_mem_of_run rfl⟩, (run_append isBlank cs).symm⟩

/-! ## Markers -/

theorem StartMarker.text_append (m : StartMarker) (rest : List Char) : m.text ++ rest =
    '\x7b' :: (m.opening.1 ++ (m.foreachWord.1 ++ (m.afterForeach.1 ++ (m.collection.1 ++
      (m.beforeAs.1 ++ (m.asWord.1 ++ (m.afterAs.1 ++ (m.binding.1 ++ (m.closing.1 ++
        '\x7d' :: rest))))))))) := by
  simp only [text, List.cons_append, List.append_assoc, List.nil_append]

theorem exists_of_readStartInside {names : List Char × List Char}
    (h : readStartInside cs = some (names, rest)) :
    ∃ m : StartMarker, '\x7b' :: cs = m.text ++ rest := by
  simp only [readStartInside, Option.bind_eq_bind, Option.bind_eq_some_iff, Prod.exists,
    Option.some.injEq, Prod.mk.injEq] at h
  obtain ⟨c1, h1, afterForeach, c2, h2, collection, c3, h3, beforeAs, c4, h4, c5, h5, afterAs, c6,
    h6, binding, c7, h7, c8, h8, -, rfl⟩ := h
  obtain ⟨opening, hcs⟩ := exists_blanks cs
  obtain ⟨closing, h7'⟩ := exists_blanks c7
  obtain ⟨foreachWord, hforeach, h1⟩ := (afterKeyword_eq_some_iff isKeyLetter_foreach).1 h1
  obtain ⟨asWord, has, rfl⟩ := (afterKeyword_eq_some_iff isKeyLetter_as).1 h5
  obtain ⟨rfl, hafterForeach, -⟩ := run1_eq_some_iff.1 h2
  obtain ⟨rfl, hcollection, -⟩ := run1_eq_some_iff.1 h3
  obtain ⟨rfl, hbeforeAs, -⟩ := run1_eq_some_iff.1 h4
  obtain ⟨rfl, hafterAs, -⟩ := run1_eq_some_iff.1 h6
  obtain ⟨rfl, hbinding, -⟩ := run1_eq_some_iff.1 h7
  -- the text is put together from what each reader took of it
  refine ⟨⟨opening, ⟨foreachWord, hforeach⟩, ⟨afterForeach, hafterForeach⟩,
    .ofChars collection hcollection, ⟨beforeAs, hbeforeAs⟩, ⟨asWord, has⟩, ⟨afterAs, hafterAs⟩,
    .ofChars binding hbinding, closing⟩, ?_⟩
  rw [StartMarker.text_append, hcs, h1, h7', afterBrace_eq_some_iff.1 h8]
  rfl

/-- Each part of a written loop start ends where the next one begins. -/
theorem StartMarker.readStartInside_eq (m : StartMarker) (h : '\x7b' :: cs = m.text ++ rest) :
    readStartInside cs = some ((m.collection.1, m.binding.1), rest) := by
  rw [m.text_append] at h
  obtain rfl := (List.cons.inj h).2
  have hforeach := m.foreachWord.isBlank_head? (by decide) isKeyLetter_foreach
  have has := m.asWord.isBlank_head? (by decide) isKeyLetter_as
  have hbrace : ∀ c ∈ ('\x7d' :: rest).head?, isBlank c = false := by
    rintro c ⟨⟩
    decide
  simp only [readStartInside, Option.bind_eq_bind, Option.bind_eq_some_iff, Prod.exists,
    Option.some.injEq, Prod.mk.injEq]
  exact ⟨_, (afterKeyword_eq_some_iff isKeyLetter_foreach).2
      ⟨_, m.foreachWord.2, m.opening.skipBlanks_append (hforeach _)⟩,
    _, _, m.afterForeach.run1_append (m.collection.isBlank_head? _),
    _, _, m.collection.run1_append (m.beforeAs.isNameChar_head? _),
    _, _, m.beforeAs.run1_append (has _),
    _, (afterKeyword_eq_some_iff isKeyLetter_as).2 ⟨_, m.asWord.2, rfl⟩,
    _, _, m.afterAs.run1_append (m.binding.isBlank_head? _),
    _, _, m.binding.run1_append (m.closing.isNameChar_head? _),
    _, afterBrace_eq_some_iff.2 (m.closing.skipBlanks_append hbrace), ⟨rfl, rfl⟩, rfl⟩

theorem upTo_append (front rest : List Char) : upTo (front ++ rest) rest = front := by
  rw [upTo, List.length_append, Nat.add_sub_cancel, List.take_left]

theorem StartMarker.readStart_append (m : StartMarker) (rest : List Char) :
    readStart (m.text ++ rest) = some (m.header, rest) := by
  have hcs : m.text ++ rest = '\x7b' :: (m.text.tail ++ rest) := rfl
  rw [hcs, readStart, m.readStartInside_eq hcs.symm, Option.map_some]
  simp only [upTo_append]
  rfl

/-- A loop start is read from the front of a text exactly if one is written there. -/
theorem readStart_eq_some_iff {header : Header} : readStart cs = some (header, rest) ↔
    ∃ m : StartMarker, m.header = header ∧ cs = m.text ++ rest := by
  constructor
  · intro h
    have hread := h
    unfold readStart at h
    split at h
    · obtain ⟨⟨_, rest'⟩, hr, he⟩ := Option.map_eq_some_iff.1 h
      obtain rfl : rest' = rest := congrArg Prod.snd he
      obtain ⟨m, hcs⟩ := exists_of_readStartInside hr
      rw [hcs, m.readStart_append] at hread
      exact ⟨m, congrArg Prod.fst (Option.some.inj hread), hcs⟩
    · cases h
  · rintro ⟨m, rfl, rfl⟩
    exact m.readStart_append rest

theorem startIn?_eq_some_iff {text : String} {header : Header} : startIn? text = some header ↔
    ∃ (m : StartMarker) (before : List Char), m.header = header ∧ m.IsFirst before text := by
  rw [startIn?, Option.map_eq_some_iff]
  constructor
  · rintro ⟨⟨before, value, after⟩, hfirst, rfl⟩
    obtain ⟨rest, hcs, hread, hle⟩ := Pattern.first?_eq_some_iff_le.1 hfirst
    obtain ⟨m, rfl, rfl⟩ := readStart_eq_some_iff.1 hread
    refine ⟨m, before, rfl, ⟨after, by rw [hcs, List.append_assoc]⟩, ?_⟩
    rintro m' before' ⟨after', he⟩
    refine hle before' (m'.text ++ after') (by rw [← he, List.append_assoc]) ?_
    exact Option.isSome_of_eq_some (m'.readStart_append after')
  · rintro ⟨m, before, rfl, ⟨after, hcs⟩, hle⟩
    refine ⟨⟨before, m.header, after⟩, Pattern.first?_eq_some_iff_le.2
      ⟨m.text ++ after, by rw [← hcs, List.append_assoc], m.readStart_append after, ?_⟩, rfl⟩
    intro front back he hread
    obtain ⟨⟨_, rest⟩, hread⟩ := Option.isSome_iff_exists.1 hread
    obtain ⟨m', -, rfl⟩ := readStart_eq_some_iff.1 hread
    exact hle m' front ⟨rest, by rw [he, List.append_assoc]⟩

/-- What starts with a character that the text before a place does not have starts no earlier. -/
theorem length_le_of_not_mem {c : Char} {before before' after after' : List Char}
    (hc : c ∉ before) (h : before ++ after = before' ++ c :: after') :
    before.length ≤ before'.length := by
  rcases List.append_eq_append_iff.1 h with ⟨more, rfl, -⟩ | ⟨more, rfl, hmore⟩
  · rw [List.length_append]
    exact Nat.le_add_right ..
  · cases more with
    | nil => exact Nat.le_of_eq (congrArg List.length (List.append_nil before'))
    | cons d more =>
      obtain ⟨rfl, -⟩ := List.cons.inj hmore
      exact absurd (List.mem_append_right _ (List.mem_cons_self ..)) hc

/-- A loop start is read as it is written if no opening brace stands before it, whatever follows.
What is read in any text is the leftmost loop start that is written in it, whose names may have
opening braces as well. -/
theorem startIn?_leftmost :
    (∀ (m : StartMarker) (before after : List Char), '\x7b' ∉ before →
      startIn? (String.ofList (before ++ m.text ++ after)) = some m.header) ∧
    ∀ (text : String) (header : Header), startIn? text = some header ↔
      ∃ (m : StartMarker) (before : List Char), m.header = header ∧ m.IsFirst before text := by
  refine ⟨fun m before after hbefore => ?_, fun text header => startIn?_eq_some_iff⟩
  refine startIn?_eq_some_iff.2 ⟨m, before, rfl, ⟨after, String.toList_ofList.symm⟩, ?_⟩
  -- every loop start begins with an opening brace, so none begins in the text before this one
  rintro m' before' ⟨after', he⟩
  rw [String.toList_ofList, List.append_assoc, List.append_assoc] at he
  exact length_le_of_not_mem hbefore he.symm

/-- A loop start with a keyword for a name, a long s and white space of several kinds. -/
def shoutedStart : StartMarker where
  opening := ⟨" ".toList, List.all_eq_true.1 (by decide)⟩
  foreachWord := ⟨"ForEACH".toList, by decide +kernel⟩
  afterForeach := ⟨"\u3000".toList, by decide, List.all_eq_true.1 (by decide)⟩
  collection := .ofChars "as".toList ⟨by decide, List.all_eq_true.1 (by decide)⟩
  beforeAs := ⟨" \n".toList, by decide, List.all_eq_true.1 (by decide)⟩
  asWord := ⟨"Aſ".toList, by decide +kernel⟩
  afterAs := ⟨"\t".toList, by decide, List.all_eq_true.1 (by decide)⟩
  binding := .ofChars "line".toList ⟨by decide, List.all_eq_true.1 (by decide)⟩
  closing := ⟨[], List.forall_mem_nil _⟩

theorem shoutedStart_startIn? : '\x7b' ∉ "Dear ".toList ∧
    startIn? "Dear \x7b ForEACH\u3000as \nAſ\tline\x7d," =
      some ⟨"as", "line", "\x7b ForEACH\u3000as \nAſ\tline\x7d"⟩ :=
  ⟨by decide, startIn?_leftmost.1 shoutedStart "Dear ".toList ",".toList (by decide)⟩

/-- What only looks like a loop start is passed over, and a name may begin with a brace. -/
example : startIn? "\x7bforeach a\x7d \x7bforeach \x7bb as c\x7d" =
    some ⟨"\x7bb", "c", "\x7bforeach \x7bb as c\x7d"⟩ := by
  decide

end FormLetter.Loop
