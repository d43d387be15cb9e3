import FormLetter.Proofs.Context.Session
import FormLetter.Proofs.Text.Calm
import Mathlib.Tactic.SplitIfs

/-!
# Data without braces

Data in which no string and no key has a brace may still be printed with braces: those of an object
in JSON. But after these comes a quote or the other brace, so the text is `Calm`: none of its braces
can open a marker (`calm_plain`). Data stays without braces in the scope of a loop
(`IsBraceFree.inside`).
-/

namespace FormLetter

open FormLetter.Json FormLetter.Number FormLetter.Text

mutual

/-- No string in the value has a brace, and no key of an object in it has one. -/
def Json.Value.BraceFree : Value → Prop
  | .text s => ∀ c ∈ s.toList, isBraceless c = true
  | .array items => ItemsBraceFree items
  | .object fields => FieldsBraceFree fields
  | _ => True

def Json.ItemsBraceFree : List Value → Prop
  | [] => True
  | v :: rest => v.BraceFree ∧ ItemsBraceFree rest

def Json.FieldsBraceFree : List (String × Value) → Prop
  | [] => True
  | (k, v) :: rest =>
    (∀ c ∈ k.toList, isBraceless c = true) ∧ v.BraceFree ∧ FieldsBraceFree rest

end

theorem Json.itemsBraceFree_iff {items : List Value} :
    ItemsBraceFree items ↔ ∀ v ∈ items, v.BraceFree := by
  induction items with
  | nil => exact ⟨fun _ _ h => (List.not_mem_nil h).elim, fun _ => trivial⟩
  | cons v items ih => rw [ItemsBraceFree, ih, List.forall_mem_cons]

theorem Json.fieldsBraceFree_iff {fields : List (String × Value)} : FieldsBraceFree fields ↔
    ∀ f ∈ fields, (∀ c ∈ f.1.toList, isBraceless c = true) ∧ f.2.BraceFree := by
  induction fields with
  | nil => exact ⟨fun _ _ h => (List.not_mem_nil h).elim, fun _ => trivial⟩
  | cons f fields ih =>
    obtain ⟨k, v⟩ := f
    rw [FieldsBraceFree, ih, List.forall_mem_cons, and_assoc]

namespace Json

theorem not_mem_decimalDigits (n : Nat) : '{' ∉ decimalDigits n := fun h =>
  absurd (isDigit_of_mem_decimalDigits h) (by decide)

theorem not_mem_layOut {digits : List Char} (h : '{' ∉ digits) (k : Int) :
    '{' ∉ layOut digits k := by
  have htake : ∀ n, '{' ∉ digits.take n := fun n hm => h (List.mem_of_mem_take hm)
  have hdrop : ∀ n, '{' ∉ digits.drop n := fun n hm => h (List.mem_of_mem_drop hm)
  have hexponent := not_mem_decimalDigits
  simp only [layOut]
  split_ifs
  · simp [h]
  · simp [htake, hdrop]
  · simp [h]
  -- with an exponent, whatever its sign
  all_goals rcases digits with _ | ⟨d, _ | ⟨e, es⟩⟩ <;> simp_all

theorem not_mem_doubleText (d : Binary64) : '{' ∉ doubleText d := by
  cases d with
  | finite s m e =>
    simp only [doubleText]
    split_ifs <;> simp [not_mem_layOut, not_mem_decimalDigits]
  | infinity s => cases s <;> decide
  | nan => decide

theorem not_mem_numberText (n : Number) : '{' ∉ n.text.toList := by
  cases n with
  | double d =>
    rw [Number.text, String.toList_ofList]
    exact not_mem_doubleText d
  | integer i =>
    cases i with
    | ofNat n =>
      have htext : (Number.integer (.ofNat n)).text.toList = decimalDigits n := Nat.toList_repr
      rw [htext]
      exact not_mem_decimalDigits n
    | negSucc n =>
      have htext : (Number.integer (.negSucc n)).text.toList = '-' :: decimalDigits (n + 1) := by
        exact (String.toList_append ..).trans (congrArg (_ ++ ·) Nat.toList_repr)
      rw [htext, List.mem_cons, not_or]
      exact ⟨by decide, not_mem_decimalDigits (n + 1)⟩

theorem eq_of_mem_escapeChar {c : Char} (h : '{' ∈ escapeChar c) : c = '{' := by
  have hhex : ∀ n, '{' ≠ hexDigit n := fun n => by
    have hall : ∀ k < 16, '{' ≠ Nat.digitChar k := by decide
    exact hall (n % 16) (Nat.mod_lt n (by decide))
  unfold escapeChar at h
  split_ifs at h <;> simp_all [eq_comm]

theorem not_mem_quote {s : String} (h : '{' ∉ s.toList) : '{' ∉ (quote s).toList := by
  rw [quote, String.toList_ofList, List.cons_append, List.mem_cons, List.mem_append,
    List.mem_flatMap]
  rintro (hq | ⟨c, hc, hm⟩ | hq)
  · cases hq
  · exact h (eq_of_mem_escapeChar hm ▸ hc)
  · cases List.mem_singleton.1 hq

theorem toList_quote (s : String) : ∃ cs, (quote s).toList = '"' :: cs :=
  ⟨_, String.toList_ofList⟩

theorem compactItems_cons (v w : Value) (rest : List Value) :
    compactItems (v :: w :: rest) = v.compact ++ "," ++ compactItems (w :: rest) := by
  rw [compactItems]
  simp

theorem compactFields_cons (f g : String × Value) (rest : List (String × Value)) :
    compactFields (f :: g :: rest) = compactFields [f] ++ "," ++ compactFields (g :: rest) := by
  rw [compactFields, compactFields]
  simp

theorem toList_compactFields (f : String × Value) (rest : List (String × Value)) :
    ∃ cs, (compactFields (f :: rest)).toList = '"' :: cs := by
  obtain ⟨cs, hk⟩ := toList_quote f.1
  have hone : (compactFields [f]).toList = '"' :: (cs ++ ":".toList ++ f.2.compact.toList) := by
    rw [compactFields, String.toList_append, String.toList_append, hk]
    rfl
  cases rest with
  | nil => exact ⟨_, hone⟩
  | cons g rest =>
    rw [compactFields_cons, String.toList_append, String.toList_append, hone]
    exact ⟨_, rfl⟩

theorem calm_quote {s : String} (h : ∀ c ∈ s.toList, isBraceless c = true) :
    Calm (quote s).toList :=
  calm_of_not_mem (not_mem_quote (not_mem_of_braceless h).1)

theorem calm_mark (s : String) (h : '{' ∉ s.toList := by decide) : Calm s.toList :=
  calm_of_not_mem h

theorem calm_append {s t : String} (hs : Calm s.toList) (ht : Calm t.toList) :
    Calm (s ++ t).toList := by
  rw [String.toList_append]
  exact hs.append ht

theorem calm_field {k : String} {v : Value} (hk : ∀ c ∈ k.toList, isBraceless c = true)
    (hv : Calm v.compact.toList) : Calm (compactFields [(k, v)]).toList := by
  rw [compactFields]
  exact calm_append (calm_append (calm_quote hk) (calm_mark ":")) hv

/-- The braces of an object: after the opening one comes the quote of the first field, or the
closing one. -/
theorem calm_object {fields : List (String × Value)} (h : Calm (compactFields fields).toList) :
    Calm (Value.object fields).compact.toList := by
  have hclose : Calm (compactFields fields ++ "\x7d").toList := calm_append h (calm_mark "\x7d")
  rw [Value.compact, String.append_assoc, String.toList_append]
  refine .cons (fun _ => ?_) hclose
  cases fields with
  | nil => exact ⟨'}', [], rfl, rfl⟩
  | cons f rest =>
    obtain ⟨cs, hcs⟩ := toList_compactFields f rest
    exact ⟨'"', cs ++ ['}'], by rw [String.toList_append, hcs]; rfl, rfl⟩

mutual

theorem Value.calm_compact : ∀ v : Value, v.BraceFree → Calm v.compact.toList
  | .null, _ => by
    rw [Value.compact]
    exact calm_mark "null"
  | .bool b, _ => by
    rw [Value.compact]
    cases b with
    | true => exact calm_mark "true"
    | false => exact calm_mark "false"
  | .number n, _ => by
    rw [Value.compact]
    exact calm_of_not_mem (not_mem_numberText n)
  | .text _, h => by
    rw [Value.compact]
    exact calm_quote h
  | .array items, h => by
    rw [Value.compact]
    exact calm_append (calm_append (calm_mark "[") (calm_compactItems items h)) (calm_mark "]")
  | .object fields, h => calm_object (calm_compactFields fields h)

theorem calm_compactItems : ∀ items : List Value, ItemsBraceFree items →
    Calm (compactItems items).toList
  | [], _ => by
    rw [compactItems]
    exact calm_mark ""
  | [v], h => by
    rw [compactItems]
    exact v.calm_compact h.1
  | v :: w :: rest, h => by
    rw [compactItems_cons]
    exact calm_append (calm_append (v.calm_compact h.1) (calm_mark ","))
      (calm_compactItems (w :: rest) h.2)

theorem calm_compactFields : ∀ fields : List (String × Value), FieldsBraceFree fields →
    Calm (compactFields fields).toList
  | [], _ => by
    rw [compactFields]
    exact calm_mark ""
  | [(_, v)], h => calm_field h.1 (v.calm_compact h.2.1)
  | (_, v) :: f :: rest, h => by
    rw [compactFields_cons]
    exact calm_append (calm_append (calm_field h.1 (v.calm_compact h.2.1)) (calm_mark ","))
      (calm_compactFields (f :: rest) h.2.2)

end

/-- Data without braces is printed calm. -/
theorem Value.BraceFree.calm_plain {v : Value} (h : v.BraceFree) : Calm v.plain.toList := by
  cases v with
  | null => exact calm_mark ""
  | bool b => cases b with
    | true => exact calm_mark "true"
    | false => exact calm_mark "false"
  | number n => exact calm_of_not_mem (not_mem_numberText n)
  | text s => exact calm_of_braceless h
  | array items => exact Value.calm_compact _ h
  | object fields => exact Value.calm_compact _ h

end Json

/-! ## Contexts -/

/-- No string in the data has a brace, and no key of an object in it has one. The names of the
context itself are not printed. -/
def Context.IsBraceFree (ctx : Context) : Prop := ∀ f ∈ ctx.fields, f.2.BraceFree

namespace Fields

variable {α : Type} {name : String} {v : α} {fields : List (String × α)}

theorem mem_of_get? (h : get? name fields = some v) : (name, v) ∈ fields := by
  induction fields with
  | nil => cases h
  | cons f rest ih =>
    obtain ⟨n, u⟩ := f
    rw [get?] at h
    split at h
    · rename_i hn
      cases h
      rw [hn]
      exact List.mem_cons_self ..
    · exact List.mem_cons_of_mem _ (ih h)

theorem eq_or_mem_of_mem_insert {f : String × α} (h : f ∈ insert name v fields) :
    f = (name, v) ∨ f ∈ fields := by
  induction fields with
  | nil => exact .inl (List.mem_singleton.1 h)
  | cons g rest ih =>
    obtain ⟨n, u⟩ := g
    rw [insert] at h
    split at h
    · rename_i hn
      rw [hn] at h
      exact (List.mem_cons.1 h).imp_right (List.mem_cons_of_mem _)
    · rcases List.mem_cons.1 h with rfl | h
      · exact .inr (List.mem_cons_self ..)
      · exact (ih h).imp_right (List.mem_cons_of_mem _)

end Fields

namespace Json.Value.BraceFree

variable {v w : Value}

theorem child? (h : v.BraceFree) {part : String} (hw : v.child? part = some w) : w.BraceFree := by
  cases v with
  | object fields => exact (fieldsBraceFree_iff.1 h _ (Fields.mem_of_get? hw)).2
  | array items =>
    obtain ⟨i, -, hi⟩ := Option.bind_eq_some_iff.1 hw
    exact itemsBraceFree_iff.1 h w (List.mem_of_getElem? hi)
  | null => cases hw
  | bool b => cases hw
  | number n => cases hw
  | text s => cases hw

theorem descend? (h : v.BraceFree) {parts : List String} (hw : v.descend? parts = some w) :
    w.BraceFree := by
  induction parts generalizing v with
  | nil =>
    cases hw
    exact h
  | cons part parts ih =>
    obtain ⟨u, hu, hw⟩ := Option.bind_eq_some_iff.1 hw
    exact ih (h.child? hu) hw

theorem of_mem_pairs (h : v.BraceFree) {item : Value × Value} (hi : item ∈ v.pairs) :
    item.1.BraceFree ∧ item.2.BraceFree := by
  cases v with
  | array items =>
    obtain ⟨⟨u, i⟩, hu, rfl⟩ := List.mem_map.1 hi
    obtain ⟨-, -, hu⟩ := List.mem_zipIdx hu
    exact ⟨trivial, itemsBraceFree_iff.1 h u (hu ▸ List.getElem_mem _)⟩
  | object fields =>
    obtain ⟨f, hf, rfl⟩ := List.mem_map.1 hi
    exact fieldsBraceFree_iff.1 h f hf
  | null => cases hi
  | bool b => cases hi
  | number n => cases hi
  | text s => cases hi

end Json.Value.BraceFree

namespace Context.IsBraceFree

variable {ctx : Context}

theorem insert (h : ctx.IsBraceFree) (name : String) {v : Value} (hv : v.BraceFree) :
    (ctx.insert name v).IsBraceFree := by
  intro f hf
  rcases Fields.eq_or_mem_of_mem_insert hf with rfl | hf
  · exact hv
  · exact h f hf

theorem inside (h : ctx.IsBraceFree) {bindings : List (String × Value)}
    (hb : ∀ b ∈ bindings, b.2.BraceFree) : (ctx.inside bindings).IsBraceFree := by
  rw [Context.inside]
  induction bindings generalizing ctx with
  | nil => exact h
  | cons b bindings ih =>
    obtain ⟨hvalue, hrest⟩ := List.forall_mem_cons.1 hb
    rw [enter_cons]
    exact ih (h.insert b.1 hvalue) hrest

theorem lookup (h : ctx.IsBraceFree) {path : String} {v : Value}
    (hv : ctx.lookup path = some v) : v.BraceFree := by
  rw [Context.lookup] at hv
  split at hv
  · cases hv
  · obtain ⟨w, hw, hv⟩ := Option.bind_eq_some_iff.1 (Option.eq_some_of_filter_eq_some hv)
    exact (h _ (Fields.mem_of_get? hw)).descend? hv

theorem resolve (h : ctx.IsBraceFree) (path : String) : (ctx.resolve path).BraceFree := by
  rw [Context.resolve]
  cases hv : ctx.lookup path with
  | none => trivial
  | some v => exact h.lookup hv

end Context.IsBraceFree

end FormLetter
