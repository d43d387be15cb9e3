import FormLetter.Loop.Marker
import FormLetter.Proofs.Text.Occurrence
import FormLetter.Proofs.Text.Run

/-!
# Markers within longer texts

A name, or white space, is the longest run there is (`run1_eq_some_iff`). A marker ends with its
closing brace, so it is read alike whatever follows it. A text without loop starts or ends has none
in any part of it (`hasStart_of_isInfix`, `hasEnd_of_isInfix`).
-/

namespace FormLetter.Loop

open FormLetter.Text

variable {cs rest : List Char}

theorem afterKeyword_append {ks : List Char} (h : afterKeyword ks cs = some rest)
    (more : List Char) : afterKeyword ks (cs ++ more) = some (rest ++ more) := by
  induction ks generalizing cs with
  | nil => cases h; rfl
  | cons k ks ih =>
    cases cs with
    | nil => cases h
    | cons c cs =>
      rw [afterKeyword] at h
      rw [List.cons_append, afterKeyword]
      split at h
      · rename_i hc
        rw [if_pos hc]
        exact ih h
      · cases h

theorem run1_eq_some_iff {p : Char → Bool} {taken : List Char} : run1 p cs = some (taken, rest) ↔
    cs = taken ++ rest ∧ (taken ≠ [] ∧ ∀ c ∈ taken, p c = true) ∧
      ∀ c ∈ rest.head?, p c = false := by
  have hrun : run1 p cs = some (taken, rest) ↔ taken ≠ [] ∧ run p cs = (taken, rest) := by
    unfold run1
    split
    · rename_i hr
      rw [hr]
      constructor
      · intro h
        cases h
      · rintro ⟨hne, he⟩
        cases he
        exact absurd rfl hne
    · rename_i hne
      rw [Option.some.injEq]
      refine ⟨fun h => ⟨?_, h⟩, And.right⟩
      rintro rfl
      exact hne rest h
  rw [hrun, run_eq_iff, and_left_comm, and_assoc]

theorem run1_append {p : Char → Bool} {taken : List Char} (h : run1 p cs = some (taken, rest))
    (hr : rest ≠ []) (more : List Char) : run1 p (cs ++ more) = some (taken, rest ++ more) := by
  obtain ⟨rfl, htaken, hrest⟩ := run1_eq_some_iff.1 h
  obtain ⟨d, rest, rfl⟩ := List.exists_cons_of_ne_nil hr
  exact run1_eq_some_iff.2 ⟨List.append_assoc .., htaken, hrest⟩

theorem skipBlanks_append (h : skipBlanks cs ≠ []) (more : List Char) :
    skipBlanks (cs ++ more) = skipBlanks cs ++ more :=
  congrArg Prod.snd (run_append_more (p := isBlank) rfl h more)

theorem afterBrace_eq_some_iff : afterBrace cs = some rest ↔ cs = '\x7d' :: rest := by
  constructor
  · intro h
    unfold afterBrace at h
    split at h
    · cases h; rfl
    · cases h
  · rintro rfl
    rfl

theorem afterBrace_append (h : afterBrace cs = some rest) (more : List Char) :
    afterBrace (cs ++ more) = some (rest ++ more) := by
  rw [afterBrace_eq_some_iff.1 h]
  rfl

theorem afterSlash_append (h : afterSlash cs = some rest) (more : List Char) :
    afterSlash (cs ++ more) = some (rest ++ more) := by
  unfold afterSlash at h
  split at h
  · cases h; rfl
  · cases h

theorem ne_nil_of_afterKeyword {k : Char} {ks : List Char}
    (h : afterKeyword (k :: ks) cs = some rest) : cs ≠ [] := by
  rintro rfl
  cases h

theorem ne_nil_of_run1 {p : Char → Bool} {taken : List Char} (h : run1 p cs = some (taken, rest)) :
    cs ≠ [] := by
  rintro rfl
  cases h

theorem ne_nil_of_afterBrace (h : afterBrace cs = some rest) : cs ≠ [] := by
  rintro rfl
  cases h

theorem ne_nil_of_afterSlash (h : afterSlash cs = some rest) : cs ≠ [] := by
  rintro rfl
  cases h

theorem ne_nil_of_skipBlanks (h : skipBlanks cs ≠ []) : cs ≠ [] := by
  rintro rfl
  exact h rfl

/-! ## Markers -/

theorem readStartInside_append {names : List Char × List Char}
    (h : readStartInside cs = some (names, rest)) (more : List Char) :
    readStartInside (cs ++ more) = some (names, rest ++ more) := by
  simp only [readStartInside, Option.bind_eq_bind, Option.bind_eq_some_iff, Prod.exists,
    Option.some.injEq, Prod.mk.injEq] at h
  obtain ⟨c1, h1, _, c2, h2, _, c3, h3, _, c4, h4, c5, h5, _, c6, h6, _, c7, h7, c8, h8, hn, rfl⟩ :=
    h
  -- each part is followed by one that is not empty
  have hb := ne_nil_of_afterBrace h8
  have e1 := afterKeyword_append h1 more
  have e2 := run1_append h2 (ne_nil_of_run1 h3) more
  have e3 := run1_append h3 (ne_nil_of_run1 h4) more
  have e4 := run1_append h4 (ne_nil_of_afterKeyword h5) more
  have e5 := afterKeyword_append h5 more
  have e6 := run1_append h6 (ne_nil_of_run1 h7) more
  have e7 := run1_append h7 (ne_nil_of_skipBlanks hb) more
  have e8 := afterBrace_append h8 more
  rw [readStartInside, skipBlanks_append (ne_nil_of_afterKeyword h1), e1]
  simp only [Option.bind_eq_bind, Option.bind_some, e2, e3, e4, e5, e6, e7,
    skipBlanks_append hb, e8, hn]

theorem readEndInside_append (h : readEndInside cs = some rest) (more : List Char) :
    readEndInside (cs ++ more) = some (rest ++ more) := by
  simp only [readEndInside, Option.bind_eq_bind, Option.bind_eq_some_iff] at h
  obtain ⟨c1, h1, c2, h2, h3⟩ := h
  have hb := ne_nil_of_afterBrace h3
  have e1 := afterSlash_append h1 more
  have e2 := afterKeyword_append h2 more
  have e3 := afterBrace_append h3 more
  rw [readEndInside, skipBlanks_append (ne_nil_of_afterSlash h1), e1]
  simp only [Option.bind_eq_bind, Option.bind_some, e2, skipBlanks_append hb, e3]

theorem isSome_readStart_append (cs more : List Char) (h : (readStart cs).isSome = true) :
    (readStart (cs ++ more)).isSome = true := by
  unfold readStart at h
  split at h
  · rename_i cs
    obtain ⟨⟨names, rest⟩, hr⟩ := Option.isSome_iff_exists.1 (Option.isSome_map ▸ h)
    rw [List.cons_append, readStart, readStartInside_append hr]
    rfl
  · cases h

theorem isSome_readEnd_append (cs more : List Char) (h : (readEnd cs).isSome = true) :
    (readEnd (cs ++ more)).isSome = true := by
  unfold readEnd at h
  split at h
  · rename_i cs
    obtain ⟨rest, hr⟩ := Option.isSome_iff_exists.1 (Option.isSome_map ▸ h)
    rw [List.cons_append, readEnd, readEndInside_append hr]
    rfl
  · cases h

theorem hasStart_of_isInfix {s t : String} (h : s.toList <:+: t.toList)
    (ht : hasStart t = false) : hasStart s = false := by
  rw [← Bool.not_eq_true] at ht ⊢
  exact fun hs => ht (Pattern.occursIn_of_isInfix isSome_readStart_append h hs)

theorem hasEnd_of_isInfix {s t : String} (h : s.toList <:+: t.toList)
    (ht : hasEnd t = false) : hasEnd s = false := by
  rw [← Bool.not_eq_true] at ht ⊢
  exact fun hs => ht (Pattern.occursIn_of_isInfix isSome_readEnd_append h hs)

end FormLetter.Loop
