import FormLetter.Config.Basic
import FormLetter.Json.Reader

/-!
# Reading a configuration

A record is given as an object, in which fields may be left out and others than its own are
passed over, or as an array of its fields in order, which may end early. What is left out has its
default. A field may not be given twice.
-/

namespace FormLetter

open FormLetter.Json

namespace Record

/-- The fields of a record that are given, by name. -/
def given? (names : List String) : Syntax → Option (List (String × Syntax))
  | .array items => if items.length ≤ names.length then some (names.zip items) else none
  | .object fields => do
    let fields ← fields.mapM fun (name, s) => (stringOf? name).map (·, s)
    let known := fields.filter (names.contains ·.1)
    if (Fields.names known).Nodup then some known else none
  | _ => none

/-- The value of a field, or its default if it is not given. -/
def field? {α : Type} (fields : List (String × Syntax)) (name : String) (default : α)
    (read? : Syntax → Option α) : Option α :=
  match Fields.get? name fields with
  | none => some default
  | some s => read? s

end Record

open Record

def readText? : Syntax → Option String
  | .string parts => stringOf? parts
  | _ => none

def readOptionalText? : Syntax → Option (Option String)
  | .null => some none
  | s => (readText? s).map some

def readBool? : Syntax → Option Bool
  | .bool b => some b
  | _ => none

def FailurePolicy.ofName? (name : String) : Option FailurePolicy :=
  if name = "abort" then some .abort else if name = "skip" then some .skip else none

/-- A policy is given by its name, or as an object with null under that name. -/
def FailurePolicy.read? : Syntax → Option FailurePolicy
  | .string parts => (stringOf? parts).bind ofName?
  | .object [(name, .null)] => (stringOf? name).bind ofName?
  | _ => none

def Layout.read? (s : Syntax) : Option Layout := do
  let fields ← given? ["block", "cell", "row", "textContainer"] s
  let d : Layout := {}
  return {
    block := ← field? fields "block" d.block readText?
    cell := ← field? fields "cell" d.cell readText?
    row := ← field? fields "row" d.row readText?
    textContainer := ← field? fields "textContainer" d.textContainer readOptionalText? }

def BatchConfig.read? (s : Syntax) : Option BatchConfig := do
  let fields ← given? ["failurePolicy"] s
  return { failurePolicy := ← field? fields "failurePolicy" .abort FailurePolicy.read? }

def ConverterConfig.read? (s : Syntax) : Option ConverterConfig := do
  let fields ← given? ["enabled", "binary", "format"] s
  let d : ConverterConfig := {}
  return {
    enabled := ← field? fields "enabled" d.enabled readBool?
    binary := ← field? fields "binary" d.binary readText?
    format := ← field? fields "format" d.format readText? }

def Config.read? (s : Syntax) : Option Config := do
  let fields ← given? ["structure", "batch", "converter"] s
  return {
    layout := ← field? fields "structure" {} Layout.read?
    batch := ← field? fields "batch" {} BatchConfig.read?
    converter := ← field? fields "converter" {} ConverterConfig.read? }

/-- The configuration that a JSON text gives. -/
def Config.parse? (text : String) : Option Config := (Syntax.parse? text.toList).bind Config.read?

end FormLetter
