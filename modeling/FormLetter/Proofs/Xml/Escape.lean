import FormLetter.Proofs.Text.Run
import FormLetter.Xml.Escape

/-!
# Escaped text reads back

`unescape?` undoes `escape`, also where more text follows (`unescape?_escape_append`). Escaped text
has none of the characters that end a text or a value, and no braces but those of the text.
-/

namespace FormLetter.Xml

open FormLetter.Text

variable {c x : Char} {cs ds us : List Char}

def references : List (List Char × Char) :=
  [("lt".toList, '<'), ("gt".toList, '>'), ("amp".toList, '&'), ("apos".toList, '\''),
    ("quot".toList, '"')]

theorem escapeChar_cases (c : Char) :
    (escapeChar c = [c] ∧ c ∉ references.map (·.2)) ∨
      ∃ name, (name, c) ∈ references ∧ escapeChar c = '&' :: (name ++ [';']) := by
  by_cases h : c ∈ references.map (·.2)
  · obtain ⟨⟨name, c⟩, hm, rfl⟩ := List.mem_map.1 h
    refine .inr ⟨name, hm, ?_⟩
    revert hm
    simp only [references, List.mem_cons, Prod.mk.injEq, List.not_mem_nil, or_false]
    rintro (⟨rfl, rfl⟩ | ⟨rfl, rfl⟩ | ⟨rfl, rfl⟩ | ⟨rfl, rfl⟩ | ⟨rfl, rfl⟩) <;> rfl
  · refine .inl ⟨?_, h⟩
    simp only [references, List.map_cons, List.map_nil, List.mem_cons, List.not_mem_nil, or_false,
      not_or] at h
    obtain ⟨h1, h2, h3, h4, h5⟩ := h
    rw [escapeChar, if_neg h1, if_neg h2, if_neg h3, if_neg h4, if_neg h5]

theorem escape_append (cs ds : List Char) : escape (cs ++ ds) = escape cs ++ escape ds :=
  List.flatMap_append

theorem escape_ne_nil (h : cs ≠ []) : escape cs ≠ [] := by
  obtain ⟨c, cs, rfl⟩ := List.exists_cons_of_ne_nil h
  rw [escape, List.flatMap_cons]
  rcases escapeChar_cases c with ⟨he, -⟩ | ⟨name, -, he⟩ <;>
    · rw [he]
      exact List.cons_ne_nil _ _

def referenceChars : List Char := '&' :: ';' :: references.flatMap (·.1)

theorem mem_of_mem_escape (hx : x ∉ referenceChars) (h : x ∈ escape cs) :
    x ∈ cs ∧ x ∉ references.map (·.2) := by
  simp only [referenceChars, List.mem_cons, not_or] at hx
  obtain ⟨hamp, hsemi, hnames⟩ := hx
  obtain ⟨c, hc, hm⟩ := List.mem_flatMap.1 h
  rcases escapeChar_cases c with ⟨he, hplain⟩ | ⟨name, hr, he⟩
  · rw [he, List.mem_singleton] at hm
    exact hm ▸ ⟨hc, hplain⟩
  · rw [he, List.mem_cons, List.mem_append, List.mem_singleton] at hm
    rcases hm with hm | hm | hm
    · exact absurd hm hamp
    · exact absurd (List.mem_flatMap.2 ⟨_, hr, hm⟩) hnames
    · exact absurd hm hsemi

theorem not_mem_escape (hx : x ∈ ['<', '>', '\'', '"']) (cs : List Char) : x ∉ escape cs := by
  have hescaped : x ∉ referenceChars ∧ x ∈ references.map (·.2) := by
    simp only [List.mem_cons, List.not_mem_nil, or_false] at hx
    rcases hx with rfl | rfl | rfl | rfl <;> decide
  exact fun h => (mem_of_mem_escape hescaped.1 h).2 hescaped.2

theorem unescape?_cons_of_ne (h : c ≠ '&') (cs : List Char) :
    unescape? (c :: cs) = (unescape? cs).map (c :: ·) := by
  rw [unescape?, if_neg h]

theorem unescape?_reference {name : List Char} (h : (name, c) ∈ references) (cs : List Char) :
    unescape? ('&' :: (name ++ ';' :: cs)) = (unescape? cs).map (c :: ·) := by
  have hall : ∀ r ∈ references, referenced? r.1 = some r.2 ∧ r.1.all isReferenceChar = true := by
    decide
  obtain ⟨href, hname⟩ := hall _ h
  rw [List.all_eq_true] at hname
  have hread : enclosed? isReferenceChar ';' (name ++ ';' :: cs) = some (name, cs) :=
    (enclosed?_eq_some_iff rfl).2 ⟨rfl, hname⟩
  rw [unescape?, if_pos rfl]
  split
  · rename_i hnone
    cases hread.symm.trans hnone
  · rename_i hsome
    cases hread.symm.trans hsome
    rw [href]
    cases unescape? cs <;> rfl

theorem unescape?_escapeChar_append (c : Char) (cs : List Char) :
    unescape? (escapeChar c ++ cs) = (unescape? cs).map (c :: ·) := by
  rcases escapeChar_cases c with ⟨he, hplain⟩ | ⟨name, hr, he⟩
  · rw [he, List.singleton_append, unescape?_cons_of_ne]
    rintro rfl
    exact hplain (by decide)
  · rw [he, List.cons_append, List.append_assoc, List.singleton_append, unescape?_reference hr]

/-- Escaped text is read as the text it was, whatever follows. -/
theorem unescape?_escape_append (h : unescape? us = some ds) (cs : List Char) :
    unescape? (escape cs ++ us) = some (cs ++ ds) := by
  induction cs with
  | nil => exact h
  | cons c cs ih =>
    rw [escape, List.flatMap_cons, List.append_assoc, unescape?_escapeChar_append, ← escape, ih]
    rfl

theorem unescape?_escape (cs : List Char) : unescape? (escape cs) = some cs := by
  have hnil : unescape? [] = some [] := by rw [unescape?]
  have h := unescape?_escape_append hnil cs
  rwa [List.append_nil, List.append_nil] at h

/-- What is read of a text whose references are closed does not depend on what follows. -/
theorem unescape?_append (h : unescape? us = some ds) (cs : List Char) :
    unescape? (us ++ cs) = (unescape? cs).map (ds ++ ·) := by
  fun_induction unescape? us generalizing ds with
  | case1 =>
    cases h
    simp
  | case2 us hread => cases h
  | case3 us name rest hread ih =>
    obtain ⟨hus, hname⟩ := (enclosed?_eq_some_iff rfl).1 hread
    have hread' : enclosed? isReferenceChar ';' (us ++ cs) = some (name, rest ++ cs) :=
      (enclosed?_eq_some_iff rfl).2 ⟨by rw [hus]; simp, hname⟩
    obtain ⟨d, hd, h⟩ := Option.bind_eq_some_iff.1 h
    obtain ⟨ds', hds, h⟩ := Option.bind_eq_some_iff.1 h
    cases h
    rw [List.cons_append, unescape?, if_pos rfl]
    split
    · rename_i hnone
      cases hread'.symm.trans hnone
    · rename_i hsome
      cases hread'.symm.trans hsome
      rw [hd, ih hds]
      cases unescape? cs <;> rfl
  | case4 c us hc ih =>
    obtain ⟨ds', hds, rfl⟩ := Option.map_eq_some_iff.1 h
    rw [List.cons_append, unescape?_cons_of_ne hc, ih hds]
    cases unescape? cs <;> rfl

end FormLetter.Xml
