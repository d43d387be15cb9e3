import FormLetter.Proofs.Context.Scope

/-!
# The shape of data

The shape of a value is what is left of it with every string emptied: keys, lengths, numbers,
truth values and nulls. Paths lead to values of the same shape in contexts of the same shape
(`SameShape.lookup`), and loops over them have as many items, with the same keys.
-/

namespace FormLetter

open FormLetter.Json

namespace Json.Value

mutual

/-- The value with every string in it emptied. -/
def shape : Value → Value
  | .text _ => .text ""
  | .array items => .array (shapes items)
  | .object fields => .object (fieldShapes fields)
  | .null => .null
  | .bool b => .bool b
  | .number n => .number n

def shapes : List Value → List Value
  | [] => []
  | v :: vs => v.shape :: shapes vs

def fieldShapes : List (String × Value) → List (String × Value)
  | [] => []
  | (k, v) :: fields => (k, v.shape) :: fieldShapes fields

end

theorem shapes_eq_map (vs : List Value) : shapes vs = vs.map shape := by
  induction vs with
  | nil => rfl
  | cons v vs ih => rw [shapes, ih, List.map_cons]

theorem fieldShapes_eq_map (fields : List (String × Value)) :
    fieldShapes fields = fields.map fun (k, v) => (k, v.shape) := by
  induction fields with
  | nil => rfl
  | cons f fields ih =>
    obtain ⟨k, v⟩ := f
    rw [fieldShapes, ih, List.map_cons]

theorem names_fieldShapes (fields : List (String × Value)) :
    Fields.names (fieldShapes fields) = Fields.names fields := by
  induction fields with
  | nil => rfl
  | cons f fields ih => exact congrArg (f.1 :: ·) ih

theorem get?_fieldShapes (name : String) (fields : List (String × Value)) :
    Fields.get? name (fieldShapes fields) = (Fields.get? name fields).map shape := by
  induction fields with
  | nil => rfl
  | cons f fields ih =>
    obtain ⟨k, v⟩ := f
    rw [fieldShapes, Fields.get?, Fields.get?, ih]
    split <;> rfl

theorem insert_fieldShapes (name : String) (v : Value) (fields : List (String × Value)) :
    Fields.insert name v.shape (fieldShapes fields) =
      fieldShapes (Fields.insert name v fields) := by
  induction fields with
  | nil => rfl
  | cons f fields ih =>
    obtain ⟨k, w⟩ := f
    rw [fieldShapes, Fields.insert, Fields.insert, ih]
    split <;> rfl

theorem isNull_shape (v : Value) : v.shape.isNull = v.isNull := by
  cases v <;> rfl

theorem child?_shape (part : String) (v : Value) :
    v.shape.child? part = (v.child? part).map shape := by
  cases v with
  | object fields => exact get?_fieldShapes part fields
  | array items =>
    simp only [shape, child?, shapes_eq_map]
    cases Number.readWord? part.toList with
    | none => rfl
    | some i => exact List.getElem?_map ..
  | _ => rfl

theorem descend?_shape (parts : List String) (v : Value) :
    v.shape.descend? parts = (v.descend? parts).map shape := by
  induction parts generalizing v with
  | nil => rfl
  | cons part parts ih =>
    rw [descend?, descend?, child?_shape]
    cases v.child? part with
    | none => rfl
    | some w => exact ih w

theorem pairs_shape (v : Value) : v.shape.pairs = v.pairs.map fun (k, w) => (k, w.shape) := by
  cases v with
  | object fields =>
    simp only [shape, pairs, fieldShapes_eq_map, List.map_map]
    rfl
  | array items =>
    simp only [shape, pairs, shapes_eq_map, List.zipIdx_map, List.map_map]
    rfl
  | _ => rfl

end Json.Value

namespace Context

def shape (ctx : Context) : Context :=
  ⟨Value.fieldShapes ctx.fields, by rw [Value.names_fieldShapes]; exact ctx.nodup⟩

theorem lookup_shape (ctx : Context) (path : String) :
    ctx.shape.lookup path = (ctx.lookup path).map Value.shape := by
  rw [Context.lookup, Context.lookup]
  cases pathParts path with
  | nil => rfl
  | cons name parts =>
    simp only [shape, Context.get?, Value.get?_fieldShapes]
    cases Fields.get? name ctx.fields with
    | none => rfl
    | some v =>
      simp only [Option.map_some, Option.bind_some, Value.descend?_shape]
      cases v.descend? parts with
      | none => rfl
      | some w => cases hn : w.isNull <;> simp [Option.filter, Value.isNull_shape, hn]

/-- Same keys in the same order, and under each key a value of the same shape. -/
def SameShape (ctx ctx' : Context) : Prop := ctx.toValue.shape = ctx'.toValue.shape

namespace SameShape

variable {ctx ctx' : Context}

theorem fields (h : SameShape ctx ctx') :
    Value.fieldShapes ctx.fields = Value.fieldShapes ctx'.fields :=
  Value.object.inj h

theorem insert (h : SameShape ctx ctx') (name : String) {v w : Value} (hv : v.shape = w.shape) :
    SameShape (ctx.insert name v) (ctx'.insert name w) := by
  refine congrArg Value.object ?_
  calc Value.fieldShapes (Fields.insert name v ctx.fields)
      = Fields.insert name v.shape (Value.fieldShapes ctx.fields) :=
        (Value.insert_fieldShapes name v ctx.fields).symm
    _ = Fields.insert name w.shape (Value.fieldShapes ctx'.fields) := by rw [hv, h.fields]
    _ = Value.fieldShapes (Fields.insert name w ctx'.fields) :=
        Value.insert_fieldShapes name w ctx'.fields

theorem lookup (h : SameShape ctx ctx') (path : String) :
    (ctx.lookup path).map Value.shape = (ctx'.lookup path).map Value.shape := by
  have hs : ctx.shape = ctx'.shape := ext h.fields
  rw [← lookup_shape, ← lookup_shape, hs]

end SameShape

end Context

end FormLetter
