import FormLetter.Proofs.Disk.Path

/-!
# Items at locations

What is found at a location after an item is put somewhere, or after something is taken away. A
name that is made up is new: no item has it on its way (`freshName_not_mem`).
-/

namespace FormLetter.Disk

variable {d : Disk} {l m : Location} {item : Item}

theorem find?_of_ne_nil (h : l ≠ []) : d.find? l = lookup l d.items := if_neg h

theorem lookup_store (l m : Location) (item : Item) (items : List (Location × Item)) :
    lookup m (store l item items) = if m = l then some item else lookup m items := by
  induction items with
  | nil =>
    by_cases hml : m = l
    · simp [store, lookup, hml]
    · simp [store, lookup, hml, Ne.symm hml]
  | cons entry items ih =>
    obtain ⟨k, i⟩ := entry
    by_cases hkl : k = l
    · subst hkl
      by_cases hmk : m = k
      · simp [store, lookup, hmk]
      · simp [store, lookup, hmk, Ne.symm hmk]
    · by_cases hkm : k = m
      · simp [store, lookup, hkm, show m ≠ l from hkm ▸ hkl]
      · simp [store, lookup, hkl, hkm, ih]

theorem find?_put (h : l ≠ []) (d : Disk) (item : Item) (m : Location) :
    (d.put l item).find? m = if m = l then some item else d.find? m := by
  by_cases hm : m = []
  · subst hm
    rw [if_neg (Ne.symm h)]
    rfl
  · rw [find?_of_ne_nil hm, find?_of_ne_nil hm]
    exact lookup_store l m item d.items

theorem find?_put_self (h : l ≠ []) (d : Disk) (item : Item) :
    (d.put l item).find? l = some item := by
  rw [find?_put h, if_pos rfl]

theorem find?_put_of_ne (h : m ≠ l) (d : Disk) (item : Item) :
    (d.put l item).find? m = d.find? m := by
  by_cases hm : m = []
  · subst hm
    rfl
  · rw [find?_of_ne_nil hm, find?_of_ne_nil hm]
    exact (lookup_store l m item d.items).trans (if_neg h)

theorem lookup_filter (l m : Location) (items : List (Location × Item)) :
    lookup m (items.filter fun (k, _) => !l.isPrefixOf k) =
      if l <+: m then none else lookup m items := by
  induction items with
  | nil => simp [lookup]
  | cons entry items ih =>
    obtain ⟨k, i⟩ := entry
    by_cases hlk : l <+: k
    · have hdrop : ¬(!l.isPrefixOf k) = true := by simp [List.isPrefixOf_iff_prefix.2 hlk]
      rw [List.filter_cons_of_neg (p := fun e : Location × Item => !l.isPrefixOf e.1) hdrop]
      by_cases hkm : k = m
      · subst hkm
        exact ih.trans ((if_pos hlk).trans (if_pos hlk).symm)
      · rw [lookup, if_neg hkm]
        exact ih
    · have hkeep : (!l.isPrefixOf k) = true := by
        simp [Bool.eq_false_iff, List.isPrefixOf_iff_prefix, hlk]
      rw [List.filter_cons_of_pos (p := fun e : Location × Item => !l.isPrefixOf e.1) hkeep]
      by_cases hkm : k = m
      · subst hkm
        rw [lookup, lookup, if_pos rfl, if_pos rfl, if_neg hlk]
      · rw [lookup, lookup, if_neg hkm, if_neg hkm]
        exact ih

theorem find?_remove (h : l ≠ []) (d : Disk) (m : Location) :
    (d.remove l).find? m = if l <+: m then none else d.find? m := by
  by_cases hm : m = []
  · subst hm
    rw [if_neg fun hp => h (List.prefix_nil.1 hp)]
    rfl
  · rw [find?_of_ne_nil hm, find?_of_ne_nil hm]
    exact lookup_filter l m d.items

/-! ## Directories -/

theorem isDirectory_iff : d.isDirectory l = true ↔ d.find? l = some .directory := by
  rw [isDirectory]
  split
  · rename_i h
    simp [h]
  · rename_i h
    simpa using h

theorem isDirectory_congr {d' : Disk} (h : d'.find? l = d.find? l) :
    d'.isDirectory l = d.isDirectory l := by
  rw [isDirectory, isDirectory, h]

theorem content?_congr {d' : Disk} (h : d'.find? l = d.find? l) :
    d'.content? l = d.content? l := by
  rw [content?, content?, h]

theorem content?_eq_some_iff {content : Content} :
    d.content? l = some content ↔ ∃ executable, d.find? l = some (.file content executable) := by
  rw [content?]
  split
  · rename_i h
    simp [h]
  · rename_i h
    constructor
    · intro hc
      cases hc
    · rintro ⟨executable, hf⟩
      exact absurd hf (h _ _)

def IsMadeUp (name : String) : Prop :=
  ∃ n, name = ".tmp" ++ String.ofList (List.replicate n '0')

theorem isMadeUp_freshName (d : Disk) : IsMadeUp d.freshName := ⟨_, rfl⟩

theorem IsMadeUp.isPart {name : String} (h : IsMadeUp name) : IsPart name := by
  obtain ⟨n, rfl⟩ := h
  have hchars : (".tmp" ++ String.ofList (List.replicate n '0')).toList =
      '.' :: 't' :: 'm' :: 'p' :: List.replicate n '0' := by simp
  simp only [IsPart, ne_eq, ← String.toList_inj, hchars]
  simp [List.mem_replicate]

theorem isPart_freshName (d : Disk) : IsPart d.freshName := (isMadeUp_freshName d).isPart

theorem le_foldl_max {ns : List Nat} {n k : Nat} (h : n ∈ ns ∨ n ≤ k) : n ≤ ns.foldl max k := by
  induction ns generalizing k with
  | nil => exact h.resolve_left List.not_mem_nil
  | cons x ns ih =>
    refine ih ?_
    rcases h with h | h
    · rcases List.mem_cons.1 h with rfl | h
      · exact .inr (Nat.le_max_right _ _)
      · exact .inl h
    · exact .inr (Nat.le_trans h (Nat.le_max_left _ _))

theorem mem_of_lookup {items : List (Location × Item)} (h : lookup l items = some item) :
    (l, item) ∈ items := by
  induction items with
  | nil => cases h
  | cons entry items ih =>
    obtain ⟨k, i⟩ := entry
    rw [lookup] at h
    split at h
    · rename_i hk
      cases h
      rw [hk]
      exact List.mem_cons_self ..
    · exact List.mem_cons_of_mem _ (ih h)

/-- Nothing is on the disk with a name that is made up. -/
theorem freshName_not_mem (h : d.find? l = some item) : d.freshName ∉ l := by
  intro hm
  have hne : l ≠ [] := List.ne_nil_of_mem hm
  rw [find?_of_ne_nil hne] at h
  have hlength : d.freshName.length ∈ d.items.flatMap fun (l, _) => l.map String.length :=
    List.mem_flatMap.2 ⟨_, mem_of_lookup h, List.mem_map_of_mem hm⟩
  have hle := le_foldl_max (k := 0) (.inl hlength)
  rw [freshName] at hle
  simp only [String.length_append, String.length_ofList, List.length_replicate] at hle
  have htmp : ".tmp".length = 4 := by decide
  omega

theorem find?_freshName (d : Disk) (parent : Location)
    (h : parent ++ [d.freshName] <+: l) : d.find? l = none := by
  cases hl : d.find? l with
  | none => rfl
  | some item =>
    refine absurd (h.subset ?_) (freshName_not_mem hl)
    simp

end FormLetter.Disk
