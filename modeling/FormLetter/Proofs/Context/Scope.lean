import FormLetter.Context

/-!
# Scopes give the context back

`leave_enter`: what a scope binds is gone when it is left, and what stood under its names before
is back, in its place. So a body that leaves the context as it found it does so in a scope too.
-/

namespace FormLetter

open FormLetter.Json

namespace Fields

variable {α : Type}

theorem insert_insert (name : String) (v w : α) (fields : List (String × α)) :
    insert name v (insert name w fields) = insert name v fields := by
  induction fields with
  | nil => simp [insert]
  | cons f rest ih =>
    obtain ⟨n, u⟩ := f
    by_cases h : n = name
    · simp [insert, h]
    · simp [insert, h, ih]

theorem insert_eq_self {name : String} {v : α} {fields : List (String × α)}
    (h : get? name fields = some v) : insert name v fields = fields := by
  induction fields with
  | nil => cases h
  | cons f rest ih =>
    obtain ⟨n, u⟩ := f
    rw [get?] at h
    by_cases hn : n = name
    · rw [if_pos hn] at h
      cases h
      simp [insert, hn]
    · rw [if_neg hn] at h
      simp [insert, hn, ih h]

theorem erase_insert {name : String} {fields : List (String × α)} (h : get? name fields = none)
    (v : α) : erase name (insert name v fields) = fields := by
  induction fields with
  | nil => simp [insert, erase]
  | cons f rest ih =>
    obtain ⟨n, u⟩ := f
    rw [get?] at h
    by_cases hn : n = name
    · rw [if_pos hn] at h
      cases h
    · rw [if_neg hn] at h
      simp [insert, erase, hn, ih h]

end Fields

namespace Context

theorem ext {ctx ctx' : Context} (h : ctx.fields = ctx'.fields) : ctx = ctx' := by
  cases ctx
  cases ctx'
  cases h
  rfl

theorem restore_insert (ctx : Context) (name : String) (value : Value) :
    (ctx.insert name value).restore (name, ctx.get? name) = ctx := by
  cases h : ctx.get? name with
  | none => exact ext (Fields.erase_insert h value)
  | some old =>
    exact ext ((Fields.insert_insert name old value ctx.fields).trans (Fields.insert_eq_self h))

/-- Leaving a scope gives back the context from before it was entered. -/
theorem leave_enter (ctx : Context) (bindings : List (String × Value)) :
    (ctx.enter bindings).2.leave (ctx.enter bindings).1 = ctx := by
  -- what is bound so far is saved in front of the scope that the fold starts with
  suffices h : ∀ (scope : Scope) (ctx : Context),
      let r := bindings.foldl
        (fun r b => ((⟨(b.1, r.2.get? b.1) :: r.1.saved⟩ : Scope), r.2.insert b.1 b.2))
        (scope, ctx)
      r.2.leave r.1 = ctx.leave scope from h ⟨[]⟩ ctx
  induction bindings with
  | nil => intro scope ctx; rfl
  | cons b bindings ih =>
    intro scope ctx
    obtain ⟨name, value⟩ := b
    have h := ih ⟨(name, ctx.get? name) :: scope.saved⟩ (ctx.insert name value)
    simp only [List.foldl_cons] at h ⊢
    rw [h, leave, leave, List.foldl_cons, restore_insert]

/-- The context that the body of a scope starts with. -/
def inside (ctx : Context) (bindings : List (String × Value)) : Context := (ctx.enter bindings).2

theorem within_eq {α : Type} {body : Context → α × Context} {f : Context → α}
    (h : ∀ ctx, body ctx = (f ctx, ctx)) (ctx : Context) (bindings : List (String × Value)) :
    ctx.within bindings body = (f (ctx.inside bindings), ctx) := by
  rw [within]
  simp only [h]
  rw [leave_enter, inside]

end Context

end FormLetter
