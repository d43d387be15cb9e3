import FormLetter.Proofs.Loop.Marker
import FormLetter.Proofs.Tag.Rendering

/-!
# A loop start is read as a tag

A loop start begins like a tag and ends with a closing brace. So where no tag occurs no loop
starts: `hasStart_of_occursIn_eq_false`.
-/

namespace FormLetter.Loop

open FormLetter.Text FormLetter.Tag

theorem suffix_of_afterKeyword {ks cs rest : List Char} (h : afterKeyword ks cs = some rest) :
    rest <:+ cs := by
  induction ks generalizing cs with
  | nil => cases h; exact List.suffix_refl _
  | cons k ks ih =>
    cases cs with
    | nil => cases h
    | cons c cs =>
      rw [afterKeyword] at h
      split at h
      · exact (ih h).trans (List.suffix_cons c cs)
      · cases h

theorem suffix_of_run1 {p : Char → Bool} {cs taken rest : List Char}
    (h : run1 p cs = some (taken, rest)) : rest <:+ cs :=
  ⟨taken, (run1_eq_some_iff.1 h).1.symm⟩

theorem skipBlanks_suffix (cs : List Char) : skipBlanks cs <:+ cs := List.dropWhile_suffix isBlank

theorem keyword_of_readStartInside {cs rest : List Char} {names : List Char × List Char}
    (h : readStartInside cs = some (names, rest)) :
    ∃ after, afterKeyword "foreach".toList (skipBlanks cs) = some after ∧ '\x7d' ∈ after := by
  simp only [readStartInside, Option.bind_eq_bind, Option.bind_eq_some_iff, Prod.exists,
    Option.some.injEq, Prod.mk.injEq] at h
  obtain ⟨c1, h1, _, c2, h2, _, c3, h3, _, c4, h4, c5, h5, _, c6, h6, _, c7, h7, c8, h8, -⟩ := h
  refine ⟨c1, h1, ?_⟩
  have h78 : '\x7d' ∈ c7 :=
    (skipBlanks_suffix c7).subset (by rw [afterBrace_eq_some_iff.1 h8]; exact List.mem_cons_self ..)
  have hs : c7 <:+ c1 :=
    ((((((suffix_of_run1 h7).trans (suffix_of_run1 h6)).trans (suffix_of_afterKeyword h5)).trans
      (suffix_of_run1 h4)).trans (suffix_of_run1 h3)).trans (suffix_of_run1 h2))
  exact hs.subset h78

theorem readTag_of_readStart {cs : List Char} (h : (readStart cs).isSome = true) :
    (readTag cs).isSome = true := by
  unfold readStart at h
  split at h
  · rename_i cs
    rw [Option.isSome_map] at h
    obtain ⟨⟨names, rest⟩, hr⟩ := Option.isSome_iff_exists.1 h
    obtain ⟨after, hk, hm⟩ := keyword_of_readStartInside hr
    rw [show "foreach".toList = 'f' :: "oreach".toList by decide] at hk
    cases cs with
    | nil => cases hk
    | cons c cs =>
      by_cases hb : isBlank c = true
      · have hskip : skipBlanks (c :: cs) = skipBlanks cs := by
          simp [skipBlanks, run, hb]
        rw [hskip] at hk
        have hs := (suffix_of_afterKeyword hk).trans (skipBlanks_suffix cs)
        refine readTag_isSome ?_ ?_ (hs.subset hm) <;> rintro rfl <;> exact absurd hb (by decide)
      · have hskip : skipBlanks (c :: cs) = c :: cs := by
          simp [skipBlanks, run, hb]
        rw [hskip, afterKeyword] at hk
        split at hk
        · rename_i hc
          refine readTag_isSome ?_ ?_ ((suffix_of_afterKeyword hk).subset hm) <;> rintro rfl <;>
            exact absurd hc (by decide)
        · cases hk
  · cases h

theorem hasStart_of_occursIn_eq_false {s : String} (h : tagPattern.occursIn s.toList = false) :
    hasStart s = false := by
  rw [← Bool.not_eq_true] at h ⊢
  intro hs
  obtain ⟨rest, hsuffix, hread⟩ := Pattern.occursIn_iff.1 hs
  exact h (Pattern.occursIn_iff.2 ⟨rest, hsuffix, readTag_of_readStart hread⟩)

end FormLetter.Loop
