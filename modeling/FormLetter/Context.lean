import FormLetter.Json.Writer

/-!
# The data of a document

A `Context` gives values to names, in order. `lookup` follows a dot path into it: through the
fields of objects and, by number, the items of arrays. A path that leads nowhere, or to null, has
no value. `enter` opens a scope that binds more names and `leave` closes it: names that had a
value get it back, where they stood, and the others go.
-/

namespace FormLetter

open FormLetter.Json FormLetter.Number

/-- The text of a value in a document. -/
def Json.Value.plain : Value → String
  | .null => ""
  | .text s => s
  | .number n => n.text
  | .bool b => if b then "true" else "false"
  | v => v.compact

/-- Null and the empty string. -/
def Json.Value.isBlank : Value → Bool
  | .null => true
  | .text s => s.isEmpty
  | _ => false

theorem Json.Value.isBlank_iff {v : Value} : v.isBlank = true ↔ v = .null ∨ v = .text "" := by
  cases v <;> simp [isBlank]

/-- What a loop over a value runs through, each item with its key. Only arrays, by number, and
objects, by name, have items. -/
def Json.Value.pairs : Value → List (Value × Value)
  | .array items => items.zipIdx.map fun (v, i) => (.nat i, v)
  | .object fields => fields.map fun (k, v) => (.text k, v)
  | _ => []

/-- The part of a value at one step of a path. -/
def Json.Value.child? (part : String) : Value → Option Value
  | .object fields => Fields.get? part fields
  | .array items => (readWord? part.toList).bind (items[·]?)
  | _ => none

def Json.Value.descend? : List String → Value → Option Value
  | [], v => some v
  | part :: parts, v => (v.child? part).bind (descend? parts)

/-- The pieces of a text between dots; a text without dots is one piece. -/
def dotParts : List Char → List (List Char)
  | [] => [[]]
  | c :: cs =>
    if c = '.' then [] :: dotParts cs
    else match dotParts cs with
      | [] => [[c]]
      | part :: parts => (c :: part) :: parts

/-- A path without the dollar sign that it may start with. -/
def stripDollar : List Char → List Char
  | '$' :: cs => cs
  | cs => cs

def pathParts (path : String) : List String :=
  (dotParts (stripDollar path.toList)).map String.ofList

/-- Values by name. No name has two. -/
structure Context where
  fields : List (String × Value)
  nodup : (Fields.names fields).Nodup

namespace Context

def empty : Context := ⟨[], List.nodup_nil⟩

instance : Inhabited Context := ⟨empty⟩

def get? (ctx : Context) (name : String) : Option Value := Fields.get? name ctx.fields

def insert (ctx : Context) (name : String) (value : Value) : Context :=
  ⟨Fields.insert name value ctx.fields, Fields.nodup_insert ctx.nodup⟩

def erase (ctx : Context) (name : String) : Context :=
  ⟨Fields.erase name ctx.fields, Fields.nodup_erase ctx.nodup⟩

/-- Of a repeated name the first place and the last value count. -/
def ofFields (fields : List (String × Value)) : Context :=
  fields.foldl (fun ctx (name, value) => ctx.insert name value) empty

def ofValue? : Value → Option Context
  | .object fields => some (ofFields fields)
  | _ => none

def toValue (ctx : Context) : Value := .object ctx.fields

def size (ctx : Context) : Nat := ctx.fields.length

/-- The value at a dot path, unless it is null. -/
def lookup (ctx : Context) (path : String) : Option Value :=
  match pathParts path with
  | [] => none
  | name :: parts =>
    ((ctx.get? name).bind (Value.descend? parts)).filter fun v => !v.isNull

def resolve (ctx : Context) (path : String) : Value := (ctx.lookup path).getD .null

/-! ## Scopes -/

/-- What the names bound by a scope stood for before, the last bound first. -/
structure Scope where
  saved : List (String × Option Value)

/-- Binds names, one after the other. -/
def enter (ctx : Context) (bindings : List (String × Value)) : Scope × Context :=
  bindings.foldl
    (fun (scope, ctx) (name, value) =>
      (⟨(name, ctx.get? name) :: scope.saved⟩, ctx.insert name value))
    (⟨[]⟩, ctx)

def restore (ctx : Context) : String × Option Value → Context
  | (name, some value) => ctx.insert name value
  | (name, none) => ctx.erase name

/-- Undoes the bindings of a scope, the last one first. -/
def leave (ctx : Context) (scope : Scope) : Context := scope.saved.foldl restore ctx

/-- Runs `body` in a scope, which is closed whatever comes of it. -/
def within {α : Type} (ctx : Context) (bindings : List (String × Value))
    (body : Context → α × Context) : α × Context :=
  let (scope, inner) := ctx.enter bindings
  let (result, inner) := body inner
  (result, inner.leave scope)

end Context

end FormLetter
