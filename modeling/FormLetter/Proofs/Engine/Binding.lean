import FormLetter.Proofs.Context.Path
import FormLetter.Proofs.Engine.Run
import FormLetter.Proofs.Number.Decimal

/-!
# What a loop binds

In a loop body the name of the items is another way to write the path of the collection with the
number or the key of the item behind it (`lookup_itemContext`), as far as it is found at all:
the header of a loop may give a name that no path starts with if it is written the same way
(`lookup_binding_iff`), and then it is as if the item had no name.
-/

namespace FormLetter

open FormLetter.Json FormLetter.Loop FormLetter.Number

theorem not_mem_toString (n : Nat) : '.' ∉ (toString n).toList := by
  intro h
  have hdigit := isDigit_of_mem_decimalDigits (Nat.toList_repr (n := n) ▸ h)
  cases hdigit

namespace Json.Value

theorem toList_toString_nat (n : Nat) : (toString n).toList = decimalDigits n := Nat.toList_repr

variable {i : Nat} {key item : Value}

theorem child?_toString (items : List Value) (h : i < Nat.pow 2 64) :
    (Value.array items).child? (toString i) = items[i]? := by
  rw [child?, toList_toString_nat, readWord?_decimalDigits h, Option.bind_some]

theorem child?_of_pairs_array {items : List Value} (hi : i < Nat.pow 2 64)
    (h : (Value.array items).pairs[i]? = some (key, item)) :
    (Value.array items).child? (toString i) = some item := by
  rw [pairs, List.getElem?_map, List.getElem?_zipIdx, Option.map_map] at h
  obtain ⟨v, hv, he⟩ := Option.map_eq_some_iff.1 h
  cases he
  rw [child?_toString items hi, hv]

theorem child?_of_pairs_object {fields : List (String × Value)} {k : String}
    (hnodup : (Fields.names fields).Nodup)
    (h : (Value.object fields).pairs[i]? = some (.text k, item)) :
    (Value.object fields).child? k = some item := by
  rw [pairs, List.getElem?_map] at h
  obtain ⟨⟨name, v⟩, hf, he⟩ := Option.map_eq_some_iff.1 h
  cases he
  exact Fields.get?_of_mem hnodup (List.mem_of_getElem? hf)

theorem isNull_of_mem_pairs {v : Value} (h : (key, item) ∈ v.pairs) : key.isNull = false := by
  cases v with
  | array items =>
    obtain ⟨p, -, he⟩ := List.mem_map.1 h
    cases he
    rfl
  | object fields =>
    obtain ⟨f, -, he⟩ := List.mem_map.1 h
    cases he
    rfl
  | _ => cases h

end Json.Value

namespace Engine

variable {ctx : Context} {header : Header} {key item : Value}

theorem exists_of_items {i : Nat} (h : (items ctx header)[i]? = some (key, item)) :
    ∃ collection, ctx.lookup header.collection = some collection ∧
      collection.pairs[i]? = some (key, item) := by
  rw [items] at h
  cases hc : ctx.lookup header.collection with
  | none =>
    rw [hc] at h
    cases h
  | some collection =>
    rw [hc] at h
    exact ⟨collection, rfl, h⟩

theorem get?_itemContext (name : String) :
    (itemContext header ctx (key, item)).get? name =
      if indexBinding = name then some key
      else if header.binding = name then some item else ctx.get? name := by
  have hfields : (itemContext header ctx (key, item)).get? name =
      Fields.get? name (Fields.insert indexBinding key
        (Fields.insert header.binding item ctx.fields)) := rfl
  rw [hfields, Fields.get?_insert, Fields.get?_insert]
  rfl

theorem get?_binding (h : header.binding ≠ indexBinding) :
    (itemContext header ctx (key, item)).get? header.binding = some item := by
  rw [get?_itemContext, if_neg (Ne.symm h), if_pos rfl]

theorem lookup_pathUnder_binding (hname : IsSimpleName header.binding)
    (hindex : header.binding ≠ indexBinding) (parts : List String) :
    (itemContext header ctx (key, item)).lookup (pathUnder header.binding parts) =
      (item.descend? (allParts parts)).filter fun v => !v.isNull := by
  refine Context.lookup_pathUnder ?_ parts
  rw [pathParts_of_isSimpleName hname, Context.reach?, get?_binding hindex]
  rfl

theorem lookup_pathUnder_collection {collection : Value} {path part : String}
    (hcollection : ctx.lookup path = some collection) (hpart : '.' ∉ part.toList)
    (hitem : collection.child? part = some item) (parts : List String) :
    ctx.lookup (pathUnder path (part :: parts)) =
      (item.descend? (allParts parts)).filter fun v => !v.isNull := by
  rw [Context.lookup_eq, Option.filter_eq_some_iff] at hcollection
  rw [Context.lookup_pathUnder hcollection.1, allParts_cons_of_not_mem hpart, Value.descend?,
    hitem, Option.bind_some]

theorem lookup_itemContext_of_ne {path : String} (h : firstName path ≠ header.binding)
    (hindex : firstName path ≠ indexBinding) :
    (itemContext header ctx (key, item)).lookup path = ctx.lookup path := by
  refine Context.lookup_congr ?_
  rw [get?_itemContext, if_neg (Ne.symm hindex), if_neg (Ne.symm h)]

/-- In a loop body the name of the items, with any path behind it, leads where the path of the
collection leads with the number or the key of the item in between. `index` leads to the key, and
paths that start with other names lead where they lead outside of the loop. -/
theorem lookup_itemContext {i : Nat} (hname : IsSimpleName header.binding)
    (hindex : header.binding ≠ indexBinding) (hitem : (items ctx header)[i]? = some (key, item)) :
    let inner := itemContext header ctx (key, item)
    (∀ list, ctx.lookup header.collection = some (.array list) → i < Nat.pow 2 64 →
      ∀ parts, inner.lookup (pathUnder header.binding parts) =
        ctx.lookup (pathUnder header.collection (toString i :: parts))) ∧
    (∀ fields k, ctx.lookup header.collection = some (.object fields) →
      (Fields.names fields).Nodup → key = .text k → '.' ∉ k.toList →
      ∀ parts, inner.lookup (pathUnder header.binding parts) =
        ctx.lookup (pathUnder header.collection (k :: parts))) ∧
    inner.lookup indexBinding = some key ∧
    ∀ path, firstName path ≠ header.binding → firstName path ≠ indexBinding →
      inner.lookup path = ctx.lookup path := by
  intro inner
  obtain ⟨collection, hcollection, hpair⟩ := exists_of_items hitem
  refine ⟨fun list hlist hi parts => ?_, fun fields k hfields hnodup hkey hdot parts => ?_, ?_,
    fun path hfirst hother => lookup_itemContext_of_ne hfirst hother⟩
  · cases hcollection.symm.trans hlist
    rw [lookup_pathUnder_binding hname hindex, lookup_pathUnder_collection hlist
      (not_mem_toString i) (Value.child?_of_pairs_array hi hpair)]
  · cases hcollection.symm.trans hfields
    subst hkey
    rw [lookup_pathUnder_binding hname hindex, lookup_pathUnder_collection hfields hdot
      (Value.child?_of_pairs_object hnodup hpair)]
  · have hnull := Value.isNull_of_mem_pairs (List.mem_of_getElem? hpair)
    have hsimple : IsSimpleName indexBinding := by decide
    rw [Context.lookup_of_isSimpleName hsimple, get?_itemContext, if_pos rfl]
    simp [hnull]

def shop : Context :=
  ⟨[("customer", .object [("orders", .array [.null, .object [("id", .nat 9)]])]),
    ("rates", .object [("eu", .text "low"), ("us", .object [("tax", .nat 7)])])], by decide⟩

theorem shop_lookup :
    let order : Header := ⟨"$customer.orders", "order", "\x7bforeach $customer.orders as order\x7d"⟩
    let rate : Header := ⟨"rates", "rate", "\x7bforeach rates as rate\x7d"⟩
    (IsSimpleName order.binding ∧ order.binding ≠ indexBinding ∧
      (items shop order)[1]? = some (.nat 1, .object [("id", .nat 9)]) ∧
      (itemContext order shop (.nat 1, .object [("id", .nat 9)])).lookup "order.id" =
        shop.lookup "$customer.orders.1.id") ∧
    (IsSimpleName rate.binding ∧ rate.binding ≠ indexBinding ∧
      (items shop rate)[1]? = some (.text "us", .object [("tax", .nat 7)]) ∧
      (itemContext rate shop (.text "us", .object [("tax", .nat 7)])).lookup "rate.tax" =
        shop.lookup "rates.us.tax") := by
  intro order rate
  have hparts : pathParts order.collection = ["customer", "orders"] := by decide +kernel
  have hlist : shop.lookup order.collection = some (.array [.null, .object [("id", .nat 9)]]) := by
    simp [Context.lookup, hparts, Context.get?, shop, Fields.get?, Value.descend?, Value.child?,
      Value.isNull]
  have hobject : shop.lookup rate.collection =
      some (.object [("eu", .text "low"), ("us", .object [("tax", .nat 7)])]) := by
    rw [Context.lookup_of_isSimpleName (by decide)]
    simp [Context.get?, shop, Fields.get?, rate, Value.isNull]
  have horder : (items shop order)[1]? = some (.nat 1, .object [("id", .nat 9)]) := by
    rw [items, hlist]
    rfl
  have hrate : (items shop rate)[1]? = some (.text "us", .object [("tax", .nat 7)]) := by
    rw [items, hobject]
    rfl
  have hid := (lookup_itemContext (by decide) (by decide) horder).1 _ hlist (by decide) ["id"]
  have htax := (lookup_itemContext (by decide) (by decide) hrate).2.1 _ "us" hobject (by decide) rfl
    (by decide) ["tax"]
  exact ⟨⟨by decide, by decide, horder, hid⟩, by decide, by decide, hrate, htax⟩

/-! ## Names that are not found -/

theorem get?_inside_index (name : String) :
    (ctx.inside [(indexBinding, key)]).get? name =
      if indexBinding = name then some key else ctx.get? name :=
  Fields.get?_insert indexBinding name key ctx.fields

/-- No path that starts with another name than that of the items can tell whether they have one. -/
theorem lookup_itemContext_eq_inside {path : String} (h : firstName path ≠ header.binding) :
    (itemContext header ctx (key, item)).lookup path =
      (ctx.inside [(indexBinding, key)]).lookup path := by
  refine Context.lookup_congr ?_
  rw [get?_itemContext, get?_inside_index, if_neg (Ne.symm h)]

theorem lookup_inside_null (path : String) :
    (Context.empty.inside [(indexBinding, .null)]).lookup path = none := by
  obtain ⟨parts, hparts⟩ := exists_pathParts_eq_cons path
  rw [Context.lookup_eq, hparts, Context.reach?, get?_inside_index]
  by_cases hfirst : indexBinding = firstName path
  · rw [if_pos hfirst]
    cases parts <;> rfl
  · rw [if_neg hfirst]
    rfl

/-- The name that a loop gives to its items leads to the item, whatever the data, exactly if it is
simple. Else it leads where it would lead if the items had no name. -/
theorem lookup_binding_iff (hindex : header.binding ≠ indexBinding) :
    ((∀ ctx key item, item.isNull = false →
      (itemContext header ctx (key, item)).lookup header.binding = some item) ↔
        IsSimpleName header.binding) ∧
    (¬IsSimpleName header.binding → ∀ ctx key item,
      (itemContext header ctx (key, item)).lookup header.binding =
        (ctx.inside [(indexBinding, key)]).lookup header.binding) := by
  have hlost : ¬IsSimpleName header.binding → ∀ ctx key item,
      (itemContext header ctx (key, item)).lookup header.binding =
        (ctx.inside [(indexBinding, key)]).lookup header.binding :=
    fun hname ctx key item => lookup_itemContext_eq_inside (mt firstName_eq_self_iff.1 hname)
  refine ⟨⟨fun hfound => ?_, fun hname ctx key item hnull => ?_⟩, hlost⟩
  · refine Decidable.byContradiction fun hname => ?_
    have hsome := hfound .empty .null (.bool true) rfl
    rw [hlost hname, lookup_inside_null] at hsome
    cases hsome
  · rw [Context.lookup_of_isSimpleName hname, get?_binding hindex]
    simp [hnull]

theorem line_lookup :
    let header : Header := ⟨"lines", "line", "\x7bforeach lines as line\x7d"⟩
    header.binding ≠ indexBinding ∧ startIn? header.marker = some header ∧
      (itemContext header shop (.nat 0, .text "pen")).lookup header.binding =
        some (.text "pen") := by
  intro header
  have hname : header.binding ≠ indexBinding := by decide
  exact ⟨hname, by decide,
    (lookup_binding_iff hname).1.2 (by decide) shop (.nat 0) (.text "pen") rfl⟩

/-- Markers name the items with a dollar sign in front, or with a dot, but nothing is found under
these names. -/
theorem unfound_lookup :
    let dollar : Header := ⟨"lines", "$line", "\x7bforeach lines as $line\x7d"⟩
    let dotted : Header := ⟨"lines", "order.line", "\x7bforeach lines as order.line\x7d"⟩
    (startIn? dollar.marker = some dollar ∧ dollar.binding ≠ indexBinding ∧
      (itemContext dollar .empty (.nat 0, .text "pen")).lookup dollar.binding ≠
        some (.text "pen")) ∧
    (startIn? dotted.marker = some dotted ∧ dotted.binding ≠ indexBinding ∧
      (itemContext dotted .empty (.nat 0, .text "pen")).lookup dotted.binding ≠
        some (.text "pen")) := by
  intro dollar dotted
  have hdollar : (itemContext dollar .empty (.nat 0, .text "pen")).lookup dollar.binding = none :=
    Option.isNone_iff_eq_none.1 (by decide +kernel)
  have hdotted : (itemContext dotted .empty (.nat 0, .text "pen")).lookup dotted.binding = none :=
    Option.isNone_iff_eq_none.1 (by decide +kernel)
  refine ⟨⟨by decide, by decide, ?_⟩, by decide, by decide, ?_⟩
  · rw [hdollar]
    exact (Option.some_ne_none _).symm
  · rw [hdotted]
    exact (Option.some_ne_none _).symm

end Engine

end FormLetter
