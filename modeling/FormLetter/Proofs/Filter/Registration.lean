import FormLetter.Proofs.Tag.Failing
import Mathlib.Data.String.Basic

/-!
# Registrations

After any registrations a name stands for the filter that was last registered under it, whatever the
case of its letters (`get?_registerAll`). The names in use are the lower-case forms of those
registered, each once. A tag that can be read calls filters that are there, and no registration
takes one away, so evaluating it never meets a name without a filter. `agrees_registerAll` puts this
together.
-/

namespace FormLetter

open FormLetter.Tag FormLetter.Text

namespace Registry

variable {r : Registry} {f : Filter} {fs : List Filter}

/-- Registers filters, one after the other. -/
def registerAll (r : Registry) (fs : List Filter) : Registry := fs.foldl register r

/-- The filters that the built-in registry starts with. -/
def builtinFilters : List Filter := [.upper, .lower, .date, .number]

theorem builtin_eq : builtin = empty.registerAll builtinFilters := rfl

theorem registerAll_append (r : Registry) (fs gs : List Filter) :
    r.registerAll (fs ++ gs) = (r.registerAll fs).registerAll gs :=
  List.foldl_append

theorem get?_register (r : Registry) (f : Filter) (name : String) :
    (r.register f).get? name = if lower f.name = lower name then some f else r.get? name :=
  Fields.get?_insert (lower f.name) (lower name) f r.filters

theorem get?_registerAll (r : Registry) (fs : List Filter) (name : String) :
    (r.registerAll fs).get? name =
      (fs.reverse.find? fun f => lower f.name = lower name).or (r.get? name) := by
  induction fs generalizing r with
  | nil => rfl
  | cons f fs ih =>
    rw [registerAll, List.foldl_cons, ← registerAll, ih, get?_register, List.reverse_cons,
      List.find?_append, Option.or_assoc, List.find?_singleton]
    congr 1
    by_cases hf : lower f.name = lower name <;> simp [hf]

theorem isSome_get?_registerAll {name : String} (h : (r.get? name).isSome = true)
    (fs : List Filter) : ((r.registerAll fs).get? name).isSome = true := by
  rw [get?_registerAll, Option.isSome_or, h, Bool.or_true]

theorem mem_names_iff {name : String} : name ∈ r.names ↔ name ∈ Fields.names r.filters :=
  List.mem_mergeSort

theorem mem_names_registerAll {name : String} :
    name ∈ (r.registerAll fs).names ↔ name ∈ r.names ∨ ∃ f ∈ fs, lower f.name = name := by
  induction fs generalizing r with
  | nil => simp [registerAll]
  | cons f fs ih =>
    have hfirst : name ∈ (r.register f).names ↔ name = lower f.name ∨ name ∈ r.names := by
      rw [mem_names_iff, mem_names_iff]
      exact Fields.mem_names_insert
    rw [registerAll, List.foldl_cons, ← registerAll, ih, hfirst, List.exists_mem_cons_iff, or_assoc,
      or_left_comm, eq_comm]

theorem nodup_registerAll (h : (Fields.names r.filters).Nodup) (fs : List Filter) :
    (Fields.names (r.registerAll fs).filters).Nodup := by
  induction fs generalizing r with
  | nil => exact h
  | cons f fs ih => exact ih (Fields.nodup_insert h)

theorem pairwise_lt_names (h : (Fields.names r.filters).Nodup) : r.names.Pairwise (· < ·) := by
  have hsorted : r.names.Pairwise fun a b => decide (a ≤ b) = true := by
    refine List.pairwise_mergeSort (fun a b c hab hbc => ?_) (fun a b => ?_) _
    · exact decide_eq_true ((of_decide_eq_true hab).trans (of_decide_eq_true hbc))
    · rw [Bool.or_eq_true, decide_eq_true_iff, decide_eq_true_iff]
      exact le_total a b
  have hnodup : r.names.Nodup := (List.mergeSort_perm _ _).nodup_iff.2 h
  refine hsorted.imp₂ (fun a b hle hne => ?_) hnodup
  exact lt_of_le_of_ne (of_decide_eq_true hle) hne

end Registry

theorem Tag.Expression.IsRegistered.registerAll {r : Registry} {e : Expression}
    (h : e.IsRegistered r) (fs : List Filter) : e.IsRegistered (r.registerAll fs) := by
  intro s hs
  have hsegment := h s hs
  cases s with
  | call name arguments => exact Registry.isSome_get?_registerAll hsegment fs
  | «variable» path => trivial
  | literal text => trivial

namespace Registry

/-- A registry answers for the filters that were registered, in this order: lookups find the last
one of a name, the names are listed in order, and a tag that can be read keeps its filters. -/
structure Agrees (r : Registry) (registered : List Filter) : Prop where
  get : ∀ name, r.get? name = registered.reverse.find? fun f => lower f.name = lower name
  contains : ∀ name, r.contains name = true ↔ ∃ f, r.get? name = some f
  increasing : r.names.Pairwise (· < ·)
  names : ∀ name, name ∈ r.names ↔ ∃ f ∈ registered, lower f.name = name
  evaluates : ∀ raw e, Expression.parse r raw = .ok e → ∀ later ctx name,
    Expression.eval (r.registerAll later) ctx e ≠ .error (.unknownFilter name)

theorem agrees_empty_registerAll (fs : List Filter) : (empty.registerAll fs).Agrees fs where
  get name := by
    rw [get?_registerAll]
    exact Option.or_none
  contains name := Option.isSome_iff_exists
  increasing := pairwise_lt_names (nodup_registerAll (r := empty) List.nodup_nil fs)
  names name := by
    rw [mem_names_registerAll]
    exact or_iff_right fun h => List.not_mem_nil (mem_names_iff.1 h)
  evaluates raw e he later ctx name herror :=
    Expression.isFilter_of_eval ((Expression.isRegistered_parse he).registerAll later) herror

/-- Any registrations, on no filters or on the built-in ones. -/
theorem agrees_registerAll (fs : List Filter) :
    (empty.registerAll fs).Agrees fs ∧ (builtin.registerAll fs).Agrees (builtinFilters ++ fs) := by
  refine ⟨agrees_empty_registerAll fs, ?_⟩
  rw [builtin_eq, ← registerAll_append]
  exact agrees_empty_registerAll (builtinFilters ++ fs)

end Registry

end FormLetter
