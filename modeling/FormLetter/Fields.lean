/-!
# Named fields in order

A list of named values, the order of which is kept: `insert` replaces the value of a name where
it stands and adds a new name at the end, `erase` takes a name out. Names that differ pairwise
stay so.
-/

namespace FormLetter.Fields

variable {α : Type}

/-- The value of a name. -/
def get? (name : String) : List (String × α) → Option α
  | [] => none
  | (n, v) :: rest => if n = name then some v else get? name rest

/-- Gives a name a value: in its place if it has one already, else at the end. -/
def insert (name : String) (value : α) : List (String × α) → List (String × α)
  | [] => [(name, value)]
  | (n, v) :: rest => if n = name then (n, value) :: rest else (n, v) :: insert name value rest

/-- Takes a name out; the others keep their order. -/
def erase (name : String) : List (String × α) → List (String × α)
  | [] => []
  | (n, v) :: rest => if n = name then rest else (n, v) :: erase name rest

def names (fields : List (String × α)) : List String := fields.map (·.1)

def ofPairs (pairs : List (String × α)) : List (String × α) :=
  pairs.foldl (fun fields (n, v) => insert n v fields) []

theorem mem_names_insert {name x : String} {value : α} {fields : List (String × α)} :
    x ∈ names (insert name value fields) ↔ x = name ∨ x ∈ names fields := by
  induction fields with
  | nil => simp [names, insert]
  | cons f rest ih =>
    obtain ⟨n, v⟩ := f
    simp only [names] at ih
    by_cases h : n = name
    · subst h; simp [names, insert]
    · simp only [insert, h, ↓reduceIte, names, List.map_cons, List.mem_cons, ih]
      constructor
      · rintro (h | h | h) <;> simp [h]
      · rintro (h | h | h) <;> simp [h]

theorem mem_of_mem_names_erase {name x : String} {fields : List (String × α)}
    (h : x ∈ names (erase name fields)) : x ∈ names fields := by
  induction fields with
  | nil => exact h
  | cons f rest ih =>
    obtain ⟨n, v⟩ := f
    rw [erase] at h
    split at h
    · exact List.mem_cons_of_mem _ h
    · simp only [names, List.map_cons, List.mem_cons] at h ih ⊢
      exact h.imp_right ih

theorem nodup_insert {name : String} {value : α} {fields : List (String × α)}
    (h : (names fields).Nodup) : (names (insert name value fields)).Nodup := by
  induction fields with
  | nil => simp [names, insert]
  | cons f rest ih =>
    obtain ⟨n, v⟩ := f
    simp only [names, List.map_cons, List.nodup_cons] at h
    by_cases hn : n = name
    · simpa [names, insert, hn] using h
    · simp only [insert, hn, ↓reduceIte, names, List.map_cons, List.nodup_cons]
      refine ⟨fun hm => ?_, ih h.2⟩
      rcases mem_names_insert.1 hm with hm | hm
      · exact hn hm
      · exact h.1 hm

theorem nodup_erase {name : String} {fields : List (String × α)}
    (h : (names fields).Nodup) : (names (erase name fields)).Nodup := by
  induction fields with
  | nil => exact h
  | cons f rest ih =>
    obtain ⟨n, v⟩ := f
    simp only [names, List.map_cons, List.nodup_cons] at h
    rw [erase]
    split
    · exact h.2
    · simp only [names, List.map_cons, List.nodup_cons]
      exact ⟨fun hm => h.1 (mem_of_mem_names_erase hm), ih h.2⟩

theorem get?_insert (name n : String) (v : α) (fields : List (String × α)) :
    get? n (insert name v fields) = if name = n then some v else get? n fields := by
  induction fields with
  | nil => rfl
  | cons f rest ih =>
    obtain ⟨k, u⟩ := f
    by_cases hk : k = name
    · subst hk
      rw [insert, if_pos rfl, get?, get?]
      split <;> rfl
    · rw [insert, if_neg hk, get?, get?, ih]
      by_cases hkn : k = n
      · rw [if_pos hkn, if_pos hkn, if_neg fun h => hk (hkn.trans h.symm)]
      · rw [if_neg hkn, if_neg hkn]

/-- Of names that differ pairwise each has the value that stands with it. -/
theorem get?_of_mem {name : String} {v : α} {fields : List (String × α)}
    (h : (names fields).Nodup) (hm : (name, v) ∈ fields) : get? name fields = some v := by
  induction fields with
  | nil => cases hm
  | cons f rest ih =>
    obtain ⟨n, u⟩ := f
    obtain ⟨hn, hrest⟩ := List.nodup_cons.1 h
    rw [get?]
    rcases List.mem_cons.1 hm with he | hm
    · cases he
      exact if_pos rfl
    · have hne : n ≠ name := by
        rintro rfl
        exact hn (List.mem_map.2 ⟨(n, v), hm, rfl⟩)
      rw [if_neg hne]
      exact ih hrest hm

end FormLetter.Fields
