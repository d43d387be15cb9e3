import FormLetter.Text.Pattern

/-!
# Occurrences of a pattern

A pattern occurs in a text if it reads at one of the suffixes of the text (`occursIn_iff`), and
first where it reads at none that starts before (`first?_eq_some_iff`, `first?_eq_some_iff_le`). It
does not occur in the last piece of a text that is cut at all its places (`occursIn_split_snd`).
What is read at all its places is read character by character (`all_cons_of_read_eq_some`,
`all_cons_of_read_eq_none`), and so the text is rewritten (`replace_cons_of_read_eq_some`,
`replace_cons_of_read_eq_none`).
-/

namespace FormLetter.Text.Pattern

variable {α : Type} {p : Pattern α}

theorem read_nil : p.read [] = none := by
  cases h : p.read [] with
  | none => rfl
  | some r => exact absurd (p.shorter h) (Nat.not_lt_zero _)

theorem first?_of_read_eq_none {c : Char} {cs : List Char} (h : p.read (c :: cs) = none) :
    p.first? (c :: cs) = (p.first? cs).map fun o => { o with before := c :: o.before } := by
  rw [first?, h]

/-- The first occurrence is where the pattern reads and does not from any place before. -/
theorem first?_eq_some_iff {cs : List Char} {o : Occurrence α} : p.first? cs = some o ↔
    ∃ rest, cs = o.before ++ rest ∧ p.read rest = some (o.value, o.after) ∧
      ∀ front back, o.before = front ++ back → back ≠ [] → p.read (back ++ rest) = none := by
  induction cs generalizing o with
  | nil =>
    constructor
    · intro h
      cases h
    · rintro ⟨rest, he, hr, -⟩
      rw [(List.append_eq_nil_iff.1 he.symm).2, read_nil] at hr
      cases hr
  | cons c cs ih =>
    obtain ⟨before, value, after⟩ := o
    cases hr : p.read (c :: cs) with
    | some r =>
      rw [first?, hr]
      constructor
      · intro h
        cases h
        refine ⟨c :: cs, rfl, hr, fun front back he hne => ?_⟩
        exact absurd (List.append_eq_nil_iff.1 he.symm).2 hne
      · rintro ⟨rest, he, hread, hfirst⟩
        cases before with
        | nil =>
          rw [List.nil_append] at he
          rw [← he, hr] at hread
          cases hread
          rfl
        | cons d before =>
          have hnone := hfirst [] (d :: before) rfl (List.cons_ne_nil d before)
          rw [← he, hr] at hnone
          cases hnone
    | none =>
      rw [first?_of_read_eq_none hr, Option.map_eq_some_iff]
      constructor
      · rintro ⟨o, ho, he⟩
        cases he
        obtain ⟨rest, rfl, hread, hfirst⟩ := ih.1 ho
        refine ⟨rest, rfl, hread, fun front back he hne => ?_⟩
        cases front with
        | nil =>
          rw [← he.trans (List.nil_append back)]
          exact hr
        | cons d front => exact hfirst front back (List.cons.inj he).2 hne
      · rintro ⟨rest, he, hread, hfirst⟩
        cases before with
        | nil =>
          rw [List.nil_append] at he
          rw [← he, hr] at hread
          cases hread
        | cons d before =>
          obtain ⟨rfl, hcs⟩ := List.cons.inj he
          exact ⟨⟨before, value, after⟩, ih.2 ⟨rest, hcs, hread, fun front back hb hne =>
            hfirst (c :: front) back (congrArg (c :: ·) hb) hne⟩, rfl⟩

/-- The first occurrence has the least text before it. -/
theorem first?_eq_some_iff_le {cs : List Char} {o : Occurrence α} : p.first? cs = some o ↔
    ∃ rest, cs = o.before ++ rest ∧ p.read rest = some (o.value, o.after) ∧
      ∀ front back, cs = front ++ back → (p.read back).isSome = true →
        o.before.length ≤ front.length := by
  rw [first?_eq_some_iff]
  refine exists_congr fun rest => and_congr_right fun he => and_congr_right fun _ => ?_
  constructor
  · intro hfirst front back hcs hread
    rcases List.append_eq_append_iff.1 (he.symm.trans hcs) with ⟨more, rfl, -⟩ | ⟨more, hb, rfl⟩
    · rw [List.length_append]
      exact Nat.le_add_right ..
    · by_cases hmore : more = []
      · exact Nat.le_of_eq (by rw [hb, hmore, List.append_nil])
      · rw [hfirst front more hb hmore] at hread
        cases hread
  · intro hle front back hb hne
    rw [← Option.not_isSome_iff_eq_none]
    intro hread
    have hlength := hle front (back ++ rest) (by rw [he, hb, List.append_assoc]) hread
    rw [hb, List.length_append] at hlength
    have hpos := List.length_pos_iff.2 hne
    omega

theorem first?_eq_some {cs : List Char} {o : Occurrence α} (h : p.first? cs = some o) :
    ∃ rest, cs = o.before ++ rest ∧ p.read rest = some (o.value, o.after) :=
  (first?_eq_some_iff.1 h).imp fun _ hrest => ⟨hrest.1, hrest.2.1⟩

theorem occursIn_cons (c : Char) (cs : List Char) :
    p.occursIn (c :: cs) = ((p.read (c :: cs)).isSome || p.occursIn cs) := by
  cases hr : p.read (c :: cs) with
  | some r => rw [occursIn, first?, hr]; rfl
  | none =>
    rw [occursIn, first?_of_read_eq_none hr, occursIn, Option.isSome_map]
    rfl

theorem occursIn_iff {cs : List Char} :
    p.occursIn cs = true ↔ ∃ rest, rest <:+ cs ∧ (p.read rest).isSome = true := by
  induction cs with
  | nil =>
    constructor
    · intro h
      cases h
    · rintro ⟨rest, hs, hr⟩
      rw [List.suffix_nil.1 hs, read_nil] at hr
      cases hr
  | cons c cs ih =>
    rw [occursIn_cons, Bool.or_eq_true, ih]
    constructor
    · rintro (h | ⟨rest, hs, hr⟩)
      · exact ⟨c :: cs, List.suffix_refl _, h⟩
      · exact ⟨rest, hs.trans (List.suffix_cons c cs), hr⟩
    · rintro ⟨rest, hs, hr⟩
      rcases List.suffix_cons_iff.1 hs with rfl | hs
      · exact .inl hr
      · exact .inr ⟨rest, hs, hr⟩

theorem first?_eq_none_iff {cs : List Char} :
    p.first? cs = none ↔ ∀ front back, cs = front ++ back → p.read back = none := by
  rw [← Option.not_isSome_iff_eq_none, ← occursIn, occursIn_iff]
  constructor
  · intro h front back he
    exact Option.not_isSome_iff_eq_none.1 fun hr => h ⟨back, ⟨front, he.symm⟩, hr⟩
  · rintro h ⟨rest, ⟨front, he⟩, hr⟩
    rw [h front rest he.symm] at hr
    cases hr

/-- Nothing occurs in what is left after the last occurrence. -/
theorem occursIn_split_snd (cs : List Char) : p.occursIn (p.split cs).2 = false := by
  fun_induction Pattern.split p cs with
  | case1 cs h => simp [occursIn, h]
  | case2 cs o h pieces last hs ih =>
    rw [hs] at ih
    exact ih

theorem first?_of_read_eq_some {c : Char} {cs rest : List Char} {a : α}
    (h : p.read (c :: cs) = some (a, rest)) : p.first? (c :: cs) = some ⟨[], a, rest⟩ := by
  rw [first?, h]

theorem split_of_first?_eq_some {cs : List Char} {o : Occurrence α} (h : p.first? cs = some o) :
    p.split cs = ((o.before, o.value) :: (p.split o.after).1, (p.split o.after).2) := by
  rw [split]
  split
  · rename_i hn
    cases h.symm.trans hn
  · rename_i hs
    cases h.symm.trans hs
    rfl

theorem split_of_first?_eq_none {cs : List Char} (h : p.first? cs = none) :
    p.split cs = ([], cs) := by
  rw [split]
  split
  · rfl
  · rename_i hs
    cases h.symm.trans hs

theorem all_nil : p.all [] = [] := by rw [all, split_of_first?_eq_none rfl]; rfl

theorem all_cons_of_read_eq_some {c : Char} {cs rest : List Char} {a : α}
    (h : p.read (c :: cs) = some (a, rest)) : p.all (c :: cs) = a :: p.all rest := by
  rw [all, split_of_first?_eq_some (first?_of_read_eq_some h)]
  rfl

theorem all_cons_of_read_eq_none {c : Char} {cs : List Char} (h : p.read (c :: cs) = none) :
    p.all (c :: cs) = p.all cs := by
  cases hf : p.first? cs with
  | none =>
    rw [all, all, split_of_first?_eq_none hf,
      split_of_first?_eq_none (by rw [first?_of_read_eq_none h, hf]; rfl)]
  | some o =>
    rw [all, all, split_of_first?_eq_some hf,
      split_of_first?_eq_some (by rw [first?_of_read_eq_none h, hf]; rfl)]
    rfl

theorem head?_all (cs : List Char) : (p.all cs).head? = (p.first? cs).map (·.value) := by
  cases hf : p.first? cs with
  | none => rw [all, split_of_first?_eq_none hf]; rfl
  | some o => rw [all, split_of_first?_eq_some hf]; rfl

/-! ## Rewriting -/

theorem replace_of_first?_eq_none {f : α → List Char} {cs : List Char} (h : p.first? cs = none) :
    p.replace f cs = cs := by
  rw [replace, split_of_first?_eq_none h]
  rfl

theorem replace_of_first?_eq_some {f : α → List Char} {cs : List Char} {o : Occurrence α}
    (h : p.first? cs = some o) :
    p.replace f cs = o.before ++ (f o.value ++ p.replace f o.after) := by
  rw [replace, split_of_first?_eq_some h, replace]
  simp only [List.flatMap_cons, List.append_assoc]

theorem replace_cons_of_read_eq_some {f : α → List Char} {c : Char} {cs rest : List Char} {a : α}
    (h : p.read (c :: cs) = some (a, rest)) : p.replace f (c :: cs) = f a ++ p.replace f rest :=
  replace_of_first?_eq_some (first?_of_read_eq_some h)

theorem replace_cons_of_read_eq_none {f : α → List Char} {c : Char} {cs : List Char}
    (h : p.read (c :: cs) = none) : p.replace f (c :: cs) = c :: p.replace f cs := by
  have hfirst := first?_of_read_eq_none h
  cases hf : p.first? cs with
  | none => rw [replace_of_first?_eq_none hf, replace_of_first?_eq_none (by rw [hfirst, hf]; rfl)]
  | some o =>
    rw [hf] at hfirst
    rw [replace_of_first?_eq_some hf, replace_of_first?_eq_some hfirst]
    rfl

theorem replace_nil {f : α → List Char} : p.replace f [] = [] := replace_of_first?_eq_none rfl

/-- A text is rewritten part by part if the second part does not change what is read in front of
it. -/
theorem replace_append {f : α → List Char} {ys : List Char}
    (hp : ∀ cs, cs ≠ [] → p.read (cs ++ ys) = (p.read cs).map fun (a, rest) => (a, rest ++ ys))
    (xs : List Char) : p.replace f (xs ++ ys) = p.replace f xs ++ p.replace f ys := by
  induction hn : xs.length using Nat.strongRecOn generalizing xs with
  | ind n ih =>
    cases xs with
    | nil => rw [replace_nil, List.nil_append, List.nil_append]
    | cons c cs =>
      have hread := hp (c :: cs) (List.cons_ne_nil c cs)
      cases hr : p.read (c :: cs) with
      | none =>
        rw [hr, List.cons_append] at hread
        have hlt : cs.length < n := hn ▸ Nat.lt_succ_self cs.length
        rw [replace_cons_of_read_eq_none hr, List.cons_append, replace_cons_of_read_eq_none hread,
          ih _ hlt cs rfl]
        rfl
      | some r =>
        obtain ⟨a, rest⟩ := r
        rw [hr, List.cons_append] at hread
        rw [replace_cons_of_read_eq_some hr, List.cons_append, replace_cons_of_read_eq_some hread,
          ih _ (hn ▸ p.shorter hr) rest rfl, List.append_assoc]

theorem occursIn_of_isInfix
    (hp : ∀ cs more, (p.read cs).isSome = true → (p.read (cs ++ more)).isSome = true)
    {xs ys : List Char} (h : xs <:+: ys) (hx : p.occursIn xs = true) : p.occursIn ys = true := by
  obtain ⟨before, after, rfl⟩ := h
  obtain ⟨rest, ⟨front, rfl⟩, hr⟩ := occursIn_iff.1 hx
  refine occursIn_iff.2 ⟨rest ++ after, ⟨before ++ front, ?_⟩, hp rest after hr⟩
  simp only [List.append_assoc]

end FormLetter.Text.Pattern
