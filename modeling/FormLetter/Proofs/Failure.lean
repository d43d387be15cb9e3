/-!
# Computations that may fail

When a computation has a result (`Except.bind_eq_ok`, `Except.map_eq_ok`,
`Except.unless_throw_eq_ok`), when it fails (`Except.bind_eq_error`, `error?_mapM`), and when two of
them fail alike (`Except.map_bind_congr`, `mapM_unit`).
-/

namespace FormLetter

theorem Except.bind_eq_ok {ε α β : Type} {x : Except ε α} {f : α → Except ε β} {b : β} :
    x >>= f = .ok b ↔ ∃ a, x = .ok a ∧ f a = .ok b := by
  cases x with
  | error e =>
    constructor
    · intro h
      cases h
    · rintro ⟨_, h, -⟩
      cases h
  | ok a =>
    constructor
    · intro h
      exact ⟨a, rfl, h⟩
    · rintro ⟨_, h, hf⟩
      cases h
      exact hf

theorem Except.map_eq_ok {ε α β : Type} {x : Except ε α} {f : α → β} {b : β} :
    x.map f = .ok b ↔ ∃ a, x = .ok a ∧ f a = b := by
  cases x with
  | error e =>
    constructor
    · intro h
      cases h
    · rintro ⟨_, h, -⟩
      cases h
  | ok a =>
    constructor
    · intro h
      exact ⟨a, rfl, Except.ok.inj h⟩
    · rintro ⟨_, h, rfl⟩
      cases h
      rfl

theorem Except.bind_eq_error {ε α β : Type} {x : Except ε α} {f : α → Except ε β} {e : ε} :
    x >>= f = .error e ↔ x = .error e ∨ ∃ a, x = .ok a ∧ f a = .error e := by
  cases x with
  | error e' =>
    constructor
    · intro h
      cases h
      exact .inl rfl
    · rintro (h | ⟨_, h, -⟩)
      · cases h
        rfl
      · cases h
  | ok a =>
    constructor
    · intro h
      exact .inr ⟨a, rfl, h⟩
    · rintro (h | ⟨_, h, hf⟩)
      · cases h
      · cases h
        exact hf

/-- What goes on unless a condition holds. -/
theorem Except.unless_throw_eq_ok {ε α β : Type} {p : Prop} [Decidable p] {e : ε}
    {f : α → Except ε β} {x : Except ε β} {b : β} :
    (if p then throw e >>= f else x) = .ok b ↔ ¬p ∧ x = .ok b := by
  by_cases hp : p
  · rw [if_pos hp]
    constructor
    · intro h
      cases h
    · rintro ⟨hnot, -⟩
      exact absurd hp hnot
  · rw [if_neg hp]
    exact (and_iff_right hp).symm

theorem Except.exists_of_isOk {ε α : Type} {x : Except ε α} (h : x.isOk = true) :
    ∃ a, x = .ok a := by
  cases x with
  | error e => cases h
  | ok a => exact ⟨a, rfl⟩

/-- Why a computation fails, if it does. -/
def Except.error? {ε α : Type} : Except ε α → Option ε
  | .ok _ => none
  | .error e => some e

theorem Except.error?_eq_some_iff {ε α : Type} {x : Except ε α} {e : ε} :
    Except.error? x = some e ↔ x = .error e := by
  cases x with
  | error e' =>
    constructor
    · intro h
      cases h
      rfl
    · intro h
      cases h
      rfl
  | ok a =>
    constructor
    · intro h
      cases h
    · intro h
      cases h

theorem Except.error?_map {ε α β : Type} (f : α → β) (x : Except ε α) :
    Except.error? (x.map f) = Except.error? x := by
  cases x <;> rfl

/-- A list of computations fails as the first of them that does. -/
theorem error?_mapM {ε α β : Type} (f : α → Except ε β) (xs : List α) :
    Except.error? (xs.mapM f) = xs.findSome? fun x => Except.error? (f x) := by
  induction xs with
  | nil => rfl
  | cons x xs ih =>
    rw [List.mapM_cons, List.findSome?_cons, ← ih]
    cases f x with
    | error e => rfl
    | ok y => cases xs.mapM f <;> rfl

theorem findSome?_flatMap {α β γ : Type} (f : β → Option γ) (g : α → List β) (xs : List α) :
    (xs.flatMap g).findSome? f = xs.findSome? fun x => (g x).findSome? f := by
  induction xs with
  | nil => rfl
  | cons x xs ih =>
    rw [List.flatMap_cons, List.findSome?_append, List.findSome?_cons, ih]
    cases (g x).findSome? f <;> rfl

theorem mapM_map_eq_ok {ε α β : Type} {f : α → Except ε β} {g : β → α} {xs : List β}
    (h : ∀ x ∈ xs, f (g x) = .ok x) : (xs.map g).mapM f = .ok xs := by
  induction xs with
  | nil => rfl
  | cons x xs ih =>
    obtain ⟨hx, hxs⟩ := List.forall_mem_cons.1 h
    rw [List.map_cons, List.mapM_cons, hx, ih hxs]
    rfl

/-- Two computations that agree up to maps still do if each is followed by one that keeps it so. -/
theorem Except.map_bind_congr {ε α α' β γ γ' δ : Type} {x : Except ε α} {y : Except ε α'}
    {g : α → β} {g' : α' → β} {f : α → Except ε γ} {f' : α' → Except ε γ'} {k : γ → δ} {k' : γ' → δ}
    (h : x.map g = y.map g') (hf : ∀ a b, g a = g' b → (f a).map k = (f' b).map k') :
    (x >>= f).map k = (y >>= f').map k' := by
  cases x with
  | error e =>
    cases y with
    | error e' => cases h; rfl
    | ok b => cases h
  | ok a =>
    cases y with
    | error e' => cases h
    | ok b => exact hf a b (Except.ok.inj h)

theorem flatMapM_map {ε α β γ : Type} {g : List β → List γ} (hnil : g [] = [])
    (happend : ∀ ns ms, g (ns ++ ms) = g ns ++ g ms) (f : α → Except ε (List β)) (list : List α) :
    (list.flatMapM f).map g = list.flatMapM fun x => (f x).map g := by
  induction list with
  | nil => exact congrArg Except.ok hnil
  | cons x list ih =>
    rw [List.flatMapM_cons, List.flatMapM_cons, ← ih]
    cases f x with
    | error e => rfl
    | ok ns =>
      cases list.flatMapM f with
      | error e => rfl
      | ok ms => exact congrArg Except.ok (happend ns ms)

/-- Lists of computations that fail alike one by one fail alike. -/
theorem mapM_unit {ε α β γ δ : Type} {f : α → Except ε β} {g : γ → Except ε δ} {r : α → γ}
    {xs : List α}
    (h : ∀ x ∈ xs, (f x).map (fun _ => ()) = (g (r x)).map fun _ => ()) :
    (xs.mapM f).map (fun _ => ()) = ((xs.map r).mapM g).map fun _ => () := by
  induction xs with
  | nil => rfl
  | cons x xs ih =>
    have hx := h x (List.mem_cons_self ..)
    have hxs := ih fun y hy => h y (List.mem_cons_of_mem _ hy)
    rw [List.map_cons, List.mapM_cons, List.mapM_cons]
    exact Except.map_bind_congr hx fun _ _ _ => Except.map_bind_congr hxs fun _ _ _ => rfl

end FormLetter
