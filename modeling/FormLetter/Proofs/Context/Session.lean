import FormLetter.Proofs.Context.Scope
import Mathlib.Data.List.Forall2

/-!
# Runs of scopes

A `Session` is a context with the scopes that are open on it. In a run names get values, scopes are
opened and the innermost one is closed. A scope that is closed undoes what it bound, and with it
every value that one of its names got since, and leaves all other values where they are
(`run_closedScope`). The invariant is `Unwinds`: what the open scopes have saved can be put back in
this order, each name while it has a value, so that no other name moves.
-/

namespace FormLetter

open FormLetter.Json

namespace Fields

variable {α : Type} {m n : String} {v w : α} {fields : List (String × α)}

theorem insert_comm (hne : m ≠ n) (hm : m ∈ names fields) :
    insert m v (insert n w fields) = insert n w (insert m v fields) := by
  induction fields with
  | nil => cases hm
  | cons f rest ih =>
    obtain ⟨k, u⟩ := f
    by_cases hkm : k = m
    · subst hkm
      simp [insert, hne]
    · have hrest : m ∈ names rest := (List.mem_cons.1 hm).resolve_left (Ne.symm hkm)
      by_cases hkn : k = n
      · subst hkn
        simp [insert, hkm]
      · simp [insert, hkm, hkn, ih hrest]

theorem erase_insert_of_ne (hne : m ≠ n) :
    erase m (insert n w fields) = insert n w (erase m fields) := by
  induction fields with
  | nil => simp [insert, erase, Ne.symm hne]
  | cons f rest ih =>
    obtain ⟨k, u⟩ := f
    by_cases hkm : k = m
    · subst hkm
      simp [insert, erase, hne]
    · by_cases hkn : k = n
      · subst hkn
        simp [insert, erase, hkm]
      · simp [insert, erase, hkm, hkn, ih]

theorem erase_insert_self (hn : n ∈ names fields) :
    erase n (insert n w fields) = erase n fields := by
  induction fields with
  | nil => cases hn
  | cons f rest ih =>
    obtain ⟨k, u⟩ := f
    by_cases hk : k = n
    · simp [insert, erase, hk]
    · have hrest : n ∈ names rest := (List.mem_cons.1 hn).resolve_left (Ne.symm hk)
      simp [insert, erase, hk, ih hrest]

end Fields

namespace Context

variable {ctx outer : Context} {name : String} {value : Value}

def Has (ctx : Context) (name : String) : Prop := name ∈ Fields.names ctx.fields

theorem has_insert {n : String} : (ctx.insert name value).Has n ↔ n = name ∨ ctx.Has n :=
  Fields.mem_names_insert

/-- Each name has a value when it is put back. -/
def Undoable (ctx : Context) : List (String × Option Value) → Prop
  | [] => True
  | (name, old) :: saved => ctx.Has name ∧ (ctx.restore (name, old)).Undoable saved

def undo (ctx : Context) (saved : List (String × Option Value)) : Context :=
  saved.foldl restore ctx

theorem undo_append (saved others : List (String × Option Value)) :
    ctx.undo (saved ++ others) = (ctx.undo saved).undo others :=
  List.foldl_append

theorem undoable_append {saved others : List (String × Option Value)} :
    ctx.Undoable (saved ++ others) ↔ ctx.Undoable saved ∧ (ctx.undo saved).Undoable others := by
  induction saved generalizing ctx with
  | nil => exact (and_iff_right trivial).symm
  | cons p saved ih => exact (and_congr_right fun _ => ih).trans and_assoc.symm

theorem restore_insert_self {old : Option Value} (h : ctx.Has name) :
    (ctx.insert name value).restore (name, old) = ctx.restore (name, old) := by
  cases old with
  | none => exact ext (Fields.erase_insert_self h)
  | some v => exact ext (Fields.insert_insert name v value ctx.fields)

theorem restore_insert_of_ne {n : String} {old : Option Value} (hne : n ≠ name) (h : ctx.Has n) :
    (ctx.insert name value).restore (n, old) = (ctx.restore (n, old)).insert name value := by
  cases old with
  | none => exact ext (Fields.erase_insert_of_ne hne)
  | some v => exact ext (Fields.insert_comm hne h)

/-- A new value is lost if its name is put back, and else it stays. -/
theorem Undoable.insert {saved : List (String × Option Value)} (h : ctx.Undoable saved)
    (name : String) (value : Value) :
    (ctx.insert name value).Undoable saved ∧
      (ctx.insert name value).undo saved =
        if name ∈ saved.map (·.1) then ctx.undo saved else (ctx.undo saved).insert name value := by
  induction saved generalizing ctx with
  | nil => exact ⟨trivial, rfl⟩
  | cons p saved ih =>
    obtain ⟨n, old⟩ := p
    obtain ⟨hn, hsaved⟩ := h
    have hhas : (ctx.insert name value).Has n := has_insert.2 (.inr hn)
    rw [Undoable, undo, List.foldl_cons]
    by_cases hne : n = name
    · subst hne
      have hmem : n ∈ ((n, old) :: saved).map (·.1) := List.mem_cons_self ..
      rw [restore_insert_self hn, if_pos hmem]
      exact ⟨⟨hhas, hsaved⟩, rfl⟩
    · rw [restore_insert_of_ne hne hn]
      obtain ⟨hrest, hundo⟩ := ih hsaved
      refine ⟨⟨hhas, hrest⟩, hundo.trans ?_⟩
      simp only [List.map_cons, List.mem_cons, Ne.symm hne, false_or]
      rfl

/-! ## Opening a scope -/

def bindNext (opened : Scope × Context) (binding : String × Value) : Scope × Context :=
  (⟨(binding.1, opened.2.get? binding.1) :: opened.1.saved⟩, opened.2.insert binding.1 binding.2)

theorem enter_eq (ctx : Context) (bindings : List (String × Value)) :
    ctx.enter bindings = bindings.foldl bindNext (⟨[]⟩, ctx) := rfl

theorem enter_cons (ctx : Context) (name : String) (value : Value)
    (bindings : List (String × Value)) :
    ctx.enter ((name, value) :: bindings) =
      (⟨((ctx.insert name value).enter bindings).1.saved ++ [(name, ctx.get? name)]⟩,
        ((ctx.insert name value).enter bindings).2) := by
  -- what a scope has saved before stays behind what is bound next
  suffices h : ∀ (saved : List (String × Option Value)) (ctx : Context),
      bindings.foldl bindNext (⟨saved⟩, ctx) =
        (⟨(ctx.enter bindings).1.saved ++ saved⟩, (ctx.enter bindings).2) from
    h [(name, ctx.get? name)] (ctx.insert name value)
  induction bindings with
  | nil => exact fun _ _ => rfl
  | cons b bindings ih =>
    intro saved ctx
    obtain ⟨n, v⟩ := b
    rw [enter_eq, List.foldl_cons, List.foldl_cons, bindNext, bindNext, ih, ih, List.append_assoc]
    rfl

theorem names_enter (ctx : Context) (bindings : List (String × Value)) :
    (ctx.enter bindings).1.saved.map (·.1) = (bindings.map (·.1)).reverse := by
  induction bindings generalizing ctx with
  | nil => rfl
  | cons b bindings ih =>
    obtain ⟨n, v⟩ := b
    rw [enter_cons, List.map_append, ih]
    exact List.reverse_cons.symm

theorem Undoable.enter {saved : List (String × Option Value)} (h : ctx.Undoable saved)
    (bindings : List (String × Value)) :
    (ctx.enter bindings).2.Undoable ((ctx.enter bindings).1.saved ++ saved) := by
  induction bindings generalizing ctx saved with
  | nil => exact h
  | cons b bindings ih =>
    obtain ⟨n, v⟩ := b
    rw [enter_cons, List.append_assoc]
    refine ih ⟨has_insert.2 (.inl rfl), ?_⟩
    rwa [restore_insert]

/-- What is done to a context in a run. -/
inductive Action where
  | insert (name : String) (value : Value)
  | enter (bindings : List (String × Value))
  | leave

/-- A context, and the scopes that are open on it, the innermost first. -/
structure Session where
  ctx : Context
  scopes : List Scope

/-- What an action makes of a session; none if there is no scope to close. -/
def Session.act : Session → Action → Option Session
  | s, .insert name value => some ⟨s.ctx.insert name value, s.scopes⟩
  | s, .enter bindings => some ⟨(s.ctx.enter bindings).2, (s.ctx.enter bindings).1 :: s.scopes⟩
  | ⟨ctx, scope :: scopes⟩, .leave => some ⟨ctx.leave scope, scopes⟩
  | ⟨_, []⟩, .leave => none

def Session.run (s : Session) (actions : List Action) : Option Session :=
  actions.foldlM Session.act s

/-- How many scopes are open after a run; none if it closes one more than are open. -/
def openAfter? : Nat → List Action → Option Nat
  | n, [] => some n
  | n, .insert .. :: actions => openAfter? n actions
  | n, .enter _ :: actions => openAfter? (n + 1) actions
  | n + 1, .leave :: actions => openAfter? n actions
  | 0, .leave :: _ => none

/-- A run closes the scopes that it opens, and no others. -/
def WellBracketed (actions : List Action) : Prop := openAfter? 0 actions = some 0

instance : DecidablePred WellBracketed := fun actions =>
  inferInstanceAs (Decidable (openAfter? 0 actions = some 0))

/-- The values given in a run to names that none of the scopes binds in which that happens. `bound`
are the names bound by the scopes that are open to begin with. -/
def surviving (bound : List (List String)) : List Action → List (String × Value)
  | [] => []
  | .insert name value :: actions =>
    if ∃ names ∈ bound, name ∈ names then surviving bound actions
    else (name, value) :: surviving bound actions
  | .enter bindings :: actions => surviving (bindings.map (·.1) :: bound) actions
  | .leave :: actions => surviving bound.tail actions

/-- Gives values to names, one after the other. -/
def insertAll (ctx : Context) (fields : List (String × Value)) : Context :=
  fields.foldl (fun ctx (name, value) => ctx.insert name value) ctx

/-! ## Steps -/

/-- Closing all of these scopes, which bind these names, leads to the context `outer`. -/
structure Unwinds (bound : List (List String)) (scopes : List Scope) (ctx outer : Context) :
    Prop where
  names : List.Forall₂ (fun names scope => ∀ n, n ∈ scope.saved.map (·.1) ↔ n ∈ names) bound scopes
  undoable : ctx.Undoable (scopes.flatMap Scope.saved)
  undo : ctx.undo (scopes.flatMap Scope.saved) = outer

namespace Unwinds

variable {bound : List (List String)} {scopes : List Scope}

theorem nil (ctx : Context) : Unwinds [] [] ctx ctx := ⟨.nil, trivial, rfl⟩

theorem mem_saved_iff (h : Unwinds bound scopes ctx outer) :
    name ∈ (scopes.flatMap Scope.saved).map (·.1) ↔ ∃ names ∈ bound, name ∈ names := by
  have hnames := h.names
  clear h
  induction hnames with
  | nil => simp
  | cons hscope _ ih =>
    rw [List.flatMap_cons, List.map_append, List.mem_append, hscope, List.exists_mem_cons_iff]
    exact or_congr_right ih

theorem insert (h : Unwinds bound scopes ctx outer) (name : String) (value : Value) :
    Unwinds bound scopes (ctx.insert name value)
      (if ∃ names ∈ bound, name ∈ names then outer else outer.insert name value) := by
  obtain ⟨hundoable, hundo⟩ := h.undoable.insert name value
  refine ⟨h.names, hundoable, hundo.trans ?_⟩
  simp only [h.mem_saved_iff, h.undo]

theorem enter (h : Unwinds bound scopes ctx outer) (bindings : List (String × Value)) :
    Unwinds (bindings.map (·.1) :: bound) ((ctx.enter bindings).1 :: scopes)
      (ctx.enter bindings).2 outer := by
  refine ⟨.cons (fun n => ?_) h.names, h.undoable.enter bindings, ?_⟩
  · rw [names_enter, List.mem_reverse]
  · rw [List.flatMap_cons, undo_append]
    have houter : (ctx.enter bindings).2.undo (ctx.enter bindings).1.saved = ctx :=
      leave_enter ctx bindings
    rw [houter, h.undo]

theorem leave {names : List String} {scope : Scope}
    (h : Unwinds (names :: bound) (scope :: scopes) ctx outer) :
    Unwinds bound scopes (ctx.leave scope) outer := by
  have hundo := h.undo
  rw [List.flatMap_cons, undo_append] at hundo
  exact ⟨(List.forall₂_cons.1 h.names).2, (undoable_append.1 h.undoable).2, hundo⟩

/-- A run that closes no scope below these leads to a session that can be unwound to what survives
of it. -/
theorem exists_run (h : Unwinds bound scopes ctx outer) (below : List Scope) {actions : List Action}
    {n : Nat} (hopen : openAfter? bound.length actions = some n) :
    ∃ bound' scopes' ctx', Session.run ⟨ctx, scopes ++ below⟩ actions =
        some ⟨ctx', scopes' ++ below⟩ ∧ bound'.length = n ∧
      Unwinds bound' scopes' ctx' (outer.insertAll (surviving bound actions)) := by
  induction actions generalizing bound scopes ctx outer with
  | nil => exact ⟨bound, scopes, ctx, rfl, Option.some.inj hopen, h⟩
  | cons action actions ih =>
    cases action with
    | insert name value =>
      obtain ⟨bound', scopes', ctx', hrun, hlength, hunwinds⟩ := ih (h.insert name value) hopen
      refine ⟨bound', scopes', ctx', hrun, hlength, ?_⟩
      rw [surviving]
      split
      · rename_i hbound
        rwa [if_pos hbound] at hunwinds
      · rename_i hbound
        rwa [if_neg hbound] at hunwinds
    | enter bindings => exact ih (h.enter bindings) hopen
    | leave =>
      cases hnames : h.names with
      | nil => cases hopen
      | cons _ _ => exact ih h.leave hopen

end Unwinds

theorem run_wellBracketed {actions : List Action} (h : WellBracketed actions) (s : Session) :
    s.run actions = some ⟨s.ctx.insertAll (surviving [] actions), s.scopes⟩ := by
  obtain ⟨bound, scopes, ctx, hrun, hlength, hunwinds⟩ :=
    (Unwinds.nil s.ctx).exists_run s.scopes h
  cases List.length_eq_zero_iff.1 hlength
  cases hunwinds.names
  rw [← hunwinds.undo]
  exact hrun

theorem openAfter?_append {n k : Nat} {actions others : List Action}
    (h : openAfter? n actions = some k) (m : Nat) :
    openAfter? (n + m) (actions ++ others) = openAfter? (k + m) others := by
  induction actions generalizing n with
  | nil =>
    cases h
    rfl
  | cons action actions ih =>
    cases action with
    | insert name value => exact ih h
    | enter bindings =>
      rw [List.cons_append, openAfter?, Nat.add_right_comm]
      exact ih h
    | leave =>
      cases n with
      | zero => cases h
      | succ n =>
        rw [Nat.add_right_comm]
        exact ih h

/-- Of what survives in a scope, that survives whose name the scope does not bind. -/
theorem surviving_append (bound : List (List String)) {actions : List Action} {n : Nat}
    (h : openAfter? bound.length actions = some n) (names : List String) (others : List Action) :
    ∃ bound', bound'.length = n ∧ surviving (bound ++ [names]) (actions ++ others) =
      (surviving bound actions).filter (·.1 ∉ names) ++ surviving (bound' ++ [names]) others := by
  induction actions generalizing bound with
  | nil => exact ⟨bound, Option.some.inj h, rfl⟩
  | cons action actions ih =>
    cases action with
    | insert name value =>
      obtain ⟨bound', hlength, hrest⟩ := ih bound h
      refine ⟨bound', hlength, ?_⟩
      rw [List.cons_append, surviving, surviving, hrest]
      by_cases hbound : ∃ names ∈ bound, name ∈ names
      · have hall : ∃ ns ∈ bound ++ [names], name ∈ ns := by
          obtain ⟨ns, hns, hname⟩ := hbound
          exact ⟨ns, List.mem_append_left _ hns, hname⟩
        rw [if_pos hbound, if_pos hall]
      · rw [if_neg hbound]
        by_cases hname : name ∈ names
        · have hall : ∃ ns ∈ bound ++ [names], name ∈ ns :=
            ⟨names, List.mem_append_right _ (List.mem_singleton_self _), hname⟩
          rw [if_pos hall, List.filter_cons_of_neg (by simpa using hname)]
        · have hall : ¬∃ ns ∈ bound ++ [names], name ∈ ns := by
            rintro ⟨ns, hns, hmem⟩
            rcases List.mem_append.1 hns with hns | hns
            · exact hbound ⟨ns, hns, hmem⟩
            · exact hname (List.mem_singleton.1 hns ▸ hmem)
          rw [if_neg hall, List.filter_cons_of_pos (by simpa using hname)]
          rfl
    | enter bindings => exact ih (bindings.map (·.1) :: bound) h
    | leave =>
      cases bound with
      | nil => cases h
      | cons _ bound => exact ih bound h

/-- Closing a scope makes of the context before it was opened what it would be if nothing had been
done but to give those values that survive the inner scopes and whose names the scope does not bind.
If there are none, it is the context from before. -/
theorem run_closedScope {body : List Action} (h : WellBracketed body) (s : Session)
    (bindings : List (String × Value)) :
    let kept := (surviving [] body).filter (·.1 ∉ bindings.map (·.1))
    s.run (.enter bindings :: body ++ [.leave]) = some ⟨s.ctx.insertAll kept, s.scopes⟩ ∧
      (kept = [] → s.run (.enter bindings :: body ++ [.leave]) = some s) := by
  intro kept
  have hclosed : WellBracketed (.enter bindings :: body ++ [.leave]) := openAfter?_append h 1
  obtain ⟨bound, -, hsurviving⟩ := surviving_append [] h (bindings.map (·.1)) [.leave]
  have hkept : surviving [] (.enter bindings :: body ++ [.leave]) = kept :=
    hsurviving.trans (List.append_nil _)
  have hrun := run_wellBracketed hclosed s
  rw [hkept] at hrun
  refine ⟨hrun, fun hnil => ?_⟩
  rw [hrun, hnil]
  rfl

/-- A scope that binds a name twice, with a scope in it that binds another. -/
theorem run_shadowed :
    let item : String × Value := ("item", .text "outer")
    let body : List Action :=
      [.insert "total" (.nat 5), .insert "item" (.nat 9), .enter [("total", .null)],
        .insert "total" (.nat 7), .insert "note" (.text "new"), .leave]
    WellBracketed body ∧
      Session.run ⟨ofFields [item], []⟩
          (.enter [("item", .nat 1), ("index", .nat 0), ("item", .nat 2)] :: body ++ [.leave]) =
        some ⟨ofFields [item, ("total", .nat 5), ("note", .text "new")], []⟩ := by
  intro item body
  have hbody : WellBracketed body := by decide
  exact ⟨hbody, (run_closedScope hbody ⟨ofFields [item], []⟩
    [("item", .nat 1), ("index", .nat 0), ("item", .nat 2)]).1⟩

end Context

end FormLetter
