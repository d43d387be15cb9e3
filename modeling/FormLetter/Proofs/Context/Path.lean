import FormLetter.Context
import FormLetter.Proofs.Text.Run

/-!
# Paths into data

A path that goes on behind another one leads on from where that one leads (`lookup_pathUnder`). What
a path leads to depends on the value of the name that it starts with, and on nothing else
(`lookup_congr`). A name stands for itself as a path if it has no dot and no dollar sign in front
(`firstName_eq_self_iff`).
-/

namespace FormLetter

open FormLetter.Json

theorem dotParts_eq (cs : List Char) : dotParts cs = cs.splitOn '.' := by
  induction cs with
  | nil => rfl
  | cons c cs ih =>
    rw [dotParts, ih]
    exact (Text.splitOn_cons '.' c cs).symm

theorem dotParts_append (cs ds : List Char) :
    dotParts (cs ++ '.' :: ds) = dotParts cs ++ dotParts ds := by
  rw [dotParts_eq, dotParts_eq, dotParts_eq, List.splitOn_append_cons_self]

theorem dotParts_of_not_mem {cs : List Char} (h : '.' ∉ cs) : dotParts cs = [cs] := by
  rw [dotParts_eq]
  exact List.splitOn_eq_singleton h

theorem exists_dotParts_eq_cons (cs : List Char) :
    ∃ parts, dotParts cs = cs.takeWhile (· != '.') :: parts := by
  induction cs with
  | nil => exact ⟨[], rfl⟩
  | cons c cs ih =>
    obtain ⟨parts, hparts⟩ := ih
    rw [dotParts, hparts, List.takeWhile_cons]
    by_cases hc : c = '.'
    · subst hc
      exact ⟨_, rfl⟩
    · rw [if_neg hc, if_pos (bne_iff_ne.2 hc)]
      exact ⟨parts, rfl⟩

theorem stripDollar_of_head? {cs : List Char} (h : cs.head? ≠ some '$') : stripDollar cs = cs := by
  unfold stripDollar
  split
  · exact absurd rfl h
  · rfl

theorem stripDollar_append_dot (cs ds : List Char) :
    stripDollar (cs ++ '.' :: ds) = stripDollar cs ++ '.' :: ds := by
  cases cs with
  | nil => rfl
  | cons c cs =>
    by_cases hc : c = '$'
    · subst hc
      rfl
    · have hhead : (c :: cs).head? ≠ some '$' := mt Option.some.inj hc
      rw [stripDollar_of_head? hhead]
      exact stripDollar_of_head? hhead

/-- The name that a path starts with. -/
def firstName (path : String) : String :=
  String.ofList ((stripDollar path.toList).takeWhile (· != '.'))

theorem exists_pathParts_eq_cons (path : String) :
    ∃ parts, pathParts path = firstName path :: parts := by
  obtain ⟨parts, hparts⟩ := exists_dotParts_eq_cons (stripDollar path.toList)
  exact ⟨parts.map String.ofList, by rw [pathParts, hparts]; rfl⟩

/-- A name without dots, and without a dollar sign in front. -/
def IsSimpleName (name : String) : Prop := '.' ∉ name.toList ∧ name.toList.head? ≠ some '$'

instance (name : String) : Decidable (IsSimpleName name) := inferInstanceAs (Decidable (_ ∧ _))

theorem pathParts_of_isSimpleName {name : String} (h : IsSimpleName name) :
    pathParts name = [name] := by
  rw [pathParts, stripDollar_of_head? h.2, dotParts_of_not_mem h.1, List.map_singleton,
    String.ofList_toList]

/-- Only a simple name starts, as a path, with itself. -/
theorem firstName_eq_self_iff {name : String} : firstName name = name ↔ IsSimpleName name := by
  constructor
  · intro h
    have hchars : (stripDollar name.toList).takeWhile (· != '.') = name.toList := by
      rw [← String.toList_ofList (l := List.takeWhile _ _)]
      exact congrArg String.toList h
    have hdollar : name.toList.head? ≠ some '$' := by
      intro hhead
      obtain ⟨cs, hcs⟩ := List.head?_eq_some_iff.1 hhead
      have hle := (List.takeWhile_prefix (l := cs) (· != '.')).length_le
      rw [hcs, stripDollar] at hchars
      rw [hchars, List.length_cons] at hle
      omega
    rw [stripDollar_of_head? hdollar] at hchars
    refine ⟨fun hdot => ?_, hdollar⟩
    have hne := List.all_eq_true.1 List.all_takeWhile _ (hchars.symm ▸ hdot)
    exact absurd rfl (bne_iff_ne.1 hne)
  · intro h
    obtain ⟨parts, hparts⟩ := exists_pathParts_eq_cons name
    rw [pathParts_of_isSimpleName h] at hparts
    exact (List.cons.inj hparts).1.symm

/-! ## Paths that go on -/

/-- A path that goes on with more parts. -/
def pathUnder (path : String) (parts : List String) : String := ".".intercalate (path :: parts)

theorem pathUnder_nil (path : String) : pathUnder path [] = path := String.intercalate_singleton

theorem toList_pathUnder (path part : String) (parts : List String) :
    (pathUnder path (part :: parts)).toList =
      path.toList ++ '.' :: (pathUnder part parts).toList := by
  rw [pathUnder, String.intercalate_cons_cons, String.toList_append, String.toList_append,
    List.append_assoc]
  rfl

def allParts (parts : List String) : List String :=
  parts.flatMap fun part => (dotParts part.toList).map String.ofList

theorem allParts_cons_of_not_mem {part : String} (h : '.' ∉ part.toList) (parts : List String) :
    allParts (part :: parts) = part :: allParts parts := by
  rw [allParts, List.flatMap_cons, dotParts_of_not_mem h, List.map_singleton, String.ofList_toList]
  rfl

theorem dotParts_pathUnder (path : String) (parts : List String) :
    (dotParts (pathUnder path parts).toList).map String.ofList = allParts (path :: parts) := by
  induction parts generalizing path with
  | nil => rw [pathUnder_nil, allParts, List.flatMap_singleton]
  | cons part parts ih =>
    rw [toList_pathUnder, dotParts_append, List.map_append, ih]
    rfl

theorem pathParts_pathUnder (path : String) (parts : List String) :
    pathParts (pathUnder path parts) = pathParts path ++ allParts parts := by
  cases parts with
  | nil => exact (congrArg pathParts (pathUnder_nil path)).trans (List.append_nil _).symm
  | cons part parts =>
    rw [pathParts, toList_pathUnder, stripDollar_append_dot, dotParts_append, List.map_append,
      dotParts_pathUnder]
    rfl

theorem Json.Value.descend?_append (v : Value) (parts others : List String) :
    v.descend? (parts ++ others) = (v.descend? parts).bind (descend? others) := by
  induction parts generalizing v with
  | nil => rfl
  | cons part parts ih =>
    rw [List.cons_append, descend?, descend?, Option.bind_assoc]
    congr 1
    funext w
    exact ih w

namespace Context

variable {ctx ctx' : Context} {path : String}

def reach? (ctx : Context) : List String → Option Value
  | [] => none
  | name :: parts => (ctx.get? name).bind (Value.descend? parts)

theorem lookup_eq (ctx : Context) (path : String) :
    ctx.lookup path = (ctx.reach? (pathParts path)).filter fun v => !v.isNull := by
  obtain ⟨parts, hparts⟩ := exists_pathParts_eq_cons path
  rw [lookup, hparts]
  rfl

/-- What a path leads to is a matter of the name that it starts with. -/
theorem lookup_congr (h : ctx.get? (firstName path) = ctx'.get? (firstName path)) :
    ctx.lookup path = ctx'.lookup path := by
  obtain ⟨parts, hparts⟩ := exists_pathParts_eq_cons path
  rw [lookup_eq, lookup_eq, hparts, reach?, reach?, h]

theorem lookup_of_isSimpleName (h : IsSimpleName path) :
    ctx.lookup path = (ctx.get? path).filter fun v => !v.isNull := by
  rw [lookup_eq, pathParts_of_isSimpleName h, reach?]
  cases ctx.get? path <;> rfl

/-- A path that goes on leads on from the value where it went on. -/
theorem lookup_pathUnder {v : Value} (h : ctx.reach? (pathParts path) = some v)
    (parts : List String) :
    ctx.lookup (pathUnder path parts) =
      (v.descend? (allParts parts)).filter fun v => !v.isNull := by
  obtain ⟨others, hothers⟩ := exists_pathParts_eq_cons path
  rw [hothers, reach?] at h
  rw [lookup_eq, pathParts_pathUnder, hothers, List.cons_append, reach?]
  obtain ⟨w, hw, hv⟩ := Option.bind_eq_some_iff.1 h
  rw [hw, Option.bind_some, Value.descend?_append, hv, Option.bind_some]

end Context

end FormLetter
