import FormLetter.Text.Blank
import FormLetter.Text.Braces
import FormLetter.Text.Pattern

/-!
# Runs and what closes them

A run ends at the first character that does not belong to it (`run_append_cons`, `run_eq_iff`), so
what follows that character does not matter (`run_append_more`). `enclosed?_eq_some_iff` says what
is read up to a closing character, and `readBraces_eq_some_iff` what is read in braces. Paths are
cut at each place of a character (`splitOn_cons`), which none of the pieces has
(`not_mem_of_mem_splitOn`). Trimming takes off just the white space around a text that starts and
ends with something else (`trim_append`).
-/

namespace FormLetter.Text

variable {p : Char → Bool} {cs inside rest : List Char}

theorem run_of_all (h : ∀ c ∈ cs, p c = true) : run p cs = (cs, []) := by
  rw [run, ← List.append_nil cs, List.takeWhile_append_of_pos h, List.dropWhile_append_of_pos h,
    List.takeWhile_nil, List.dropWhile_nil, List.append_nil]

/-- A run up to the first character that is not in it. -/
theorem run_append_cons (h : ∀ c ∈ inside, p c = true) {d : Char} (hd : p d = false) :
    run p (inside ++ d :: rest) = (inside, d :: rest) := by
  have hneg : ¬p d = true := by rw [hd]; exact Bool.false_ne_true
  rw [run, List.takeWhile_append_of_pos h, List.dropWhile_append_of_pos h,
    List.takeWhile_cons_of_neg hneg, List.dropWhile_cons_of_neg hneg, List.append_nil]

theorem forall_mem_of_run (h : run p cs = (inside, rest)) : ∀ c ∈ inside, p c = true := by
  cases h
  exact List.all_eq_true.1 List.all_takeWhile

theorem eq_false_of_run {d : Char} (h : run p cs = (inside, d :: rest)) : p d = false := by
  have hd : cs.dropWhile p = d :: rest := congrArg Prod.snd h
  have hhead := List.head?_dropWhile_not p cs
  rw [hd] at hhead
  exact hhead

/-- A run is what belongs to it up to something that does not. -/
theorem run_eq_iff : run p cs = (inside, rest) ↔
    cs = inside ++ rest ∧ (∀ c ∈ inside, p c = true) ∧ ∀ c ∈ rest.head?, p c = false := by
  constructor
  · intro h
    have happend := run_append p cs
    rw [h] at happend
    refine ⟨happend.symm, forall_mem_of_run h, fun d hd => ?_⟩
    obtain ⟨rest, rfl⟩ := List.head?_eq_some_iff.1 hd
    exact eq_false_of_run h
  · rintro ⟨rfl, hinside, hrest⟩
    cases rest with
    | nil => rw [List.append_nil, run_of_all hinside]
    | cons d rest => exact run_append_cons hinside (hrest d rfl)

/-- A run that stops within a text is the same in a longer text. -/
theorem run_append_more (h : run p cs = (inside, rest)) (hr : rest ≠ []) (more : List Char) :
    run p (cs ++ more) = (inside, rest ++ more) := by
  cases rest with
  | nil => exact absurd rfl hr
  | cons d rest =>
    have happend := run_append p cs
    rw [h] at happend
    rw [← happend, List.append_assoc, List.cons_append,
      run_append_cons (forall_mem_of_run h) (eq_false_of_run h)]

theorem enclosed?_eq_some_iff {close : Char} (hc : p close = false) :
    enclosed? p close cs = some (inside, rest) ↔
      cs = inside ++ close :: rest ∧ ∀ c ∈ inside, p c = true := by
  constructor
  · intro h
    unfold enclosed? at h
    split at h
    · rename_i inside' d rest' hr
      split at h
      · rename_i hd
        cases h
        have happend := run_append p cs
        rw [hr] at happend
        exact ⟨hd ▸ happend.symm, forall_mem_of_run hr⟩
      · cases h
    · cases h
  · rintro ⟨rfl, h⟩
    rw [enclosed?, run_append_cons h hc]
    exact if_pos rfl

theorem dropWhile_append_of_head? {front : List Char} (h : ∀ c ∈ front, p c = true)
    (hcs : ∀ c ∈ cs.head?, p c = false) : (front ++ cs).dropWhile p = cs := by
  rw [List.dropWhile_append_of_pos h]
  cases cs with
  | nil => rfl
  | cons c cs => exact List.dropWhile_cons_of_neg (by rw [hcs c rfl]; exact Bool.false_ne_true)

theorem trim_append {before after : List Char} (hbefore : ∀ c ∈ before, isBlank c = true)
    (hafter : ∀ c ∈ after, isBlank c = true) (hne : cs ≠ [])
    (hfirst : ∀ c ∈ cs.head?, isBlank c = false) (hlast : ∀ c ∈ cs.getLast?, isBlank c = false) :
    trim (before ++ cs ++ after) = cs := by
  have hstart : trimStart (before ++ cs ++ after) = cs ++ after := by
    rw [List.append_assoc]
    obtain ⟨c, cs, rfl⟩ := List.exists_cons_of_ne_nil hne
    exact dropWhile_append_of_head? hbefore hfirst
  rw [trim, hstart, trimEnd, List.reverse_append, dropWhile_append_of_head?, List.reverse_reverse]
  · simpa using hafter
  · rwa [List.head?_reverse]

/-! ## Braces -/

theorem readBraces_eq_some_iff : readBraces cs = some (inside, rest) ↔
    cs = '\x7b' :: (inside ++ '\x7d' :: rest) ∧ ∀ c ∈ inside, isBraceless c = true := by
  unfold readBraces
  split
  · rw [enclosed?_eq_some_iff (by decide), List.cons.injEq]
    simp only [true_and]
  · rename_i hne
    constructor
    · intro h
      cases h
    · rintro ⟨rfl, -⟩
      exact absurd rfl (hne _)

theorem not_mem_of_braceless (h : ∀ c ∈ inside, isBraceless c = true) :
    '\x7b' ∉ inside ∧ '\x7d' ∉ inside :=
  ⟨fun hm => absurd (h _ hm) (by decide), fun hm => absurd (h _ hm) (by decide)⟩

theorem braceless_of_not_mem (hopen : '\x7b' ∉ inside) (hclose : '\x7d' ∉ inside) :
    ∀ c ∈ inside, isBraceless c = true := by
  intro c hc
  rw [isBraceless, Bool.and_eq_true, bne_iff_ne, bne_iff_ne]
  exact ⟨fun h => hopen (h ▸ hc), fun h => hclose (h ▸ hc)⟩

theorem splitOn_cons (d c : Char) (cs : List Char) :
    (c :: cs).splitOn d =
      if c = d then [] :: cs.splitOn d
      else match cs.splitOn d with
        | [] => [[c]]
        | part :: parts => (c :: part) :: parts := by
  obtain ⟨part, parts, hparts⟩ := List.exists_cons_of_ne_nil (List.splitOn_ne_nil d cs)
  rw [List.splitOn_cons_eq_if_modifyHead, hparts]
  by_cases hc : c = d
  · rw [if_pos hc, if_pos (beq_iff_eq.2 hc)]
  · rw [if_neg hc, if_neg (mt beq_iff_eq.1 hc)]
    rfl

theorem not_mem_of_mem_splitOn {d : Char} {part : List Char} (h : part ∈ cs.splitOn d) :
    d ∉ part := by
  induction cs generalizing part with
  | nil =>
    obtain rfl := List.mem_singleton.1 (List.splitOn_nil d ▸ h)
    exact List.not_mem_nil
  | cons c cs ih =>
    obtain ⟨first, parts, hparts⟩ := List.exists_cons_of_ne_nil (List.splitOn_ne_nil d cs)
    rw [hparts] at ih
    rw [splitOn_cons, hparts] at h
    split at h
    · rcases List.mem_cons.1 h with rfl | h
      · exact List.not_mem_nil
      · exact ih h
    · rename_i hc
      rcases List.mem_cons.1 h with rfl | h
      · rw [List.mem_cons, not_or]
        exact ⟨Ne.symm hc, ih (List.mem_cons_self ..)⟩
      · exact ih (List.mem_cons_of_mem _ h)

end FormLetter.Text
