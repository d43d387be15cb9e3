import FormLetter.Json.Value
import FormLetter.Tree.Layout

/-!
# Configuration

What can be set for a run: the layout of templates, what a batch does with a document that fails,
and the converter. Everything has a default.
-/

namespace FormLetter

open FormLetter.Json

/-- What a batch does with a document that cannot be made. -/
inductive FailurePolicy where
  /-- It stops, and nothing is written. -/
  | abort
  /-- It leaves the document out. -/
  | skip
  deriving DecidableEq, Repr, Inhabited

structure BatchConfig where
  failurePolicy : FailurePolicy := .abort
  deriving DecidableEq, Repr, Inhabited

/-- The program that converts documents, and the format it converts them to. -/
structure ConverterConfig where
  enabled : Bool := false
  binary : String := "soffice"
  format : String := "pdf"
  deriving DecidableEq, Repr, Inhabited

structure Config where
  layout : Layout := {}
  batch : BatchConfig := {}
  converter : ConverterConfig := {}
  deriving DecidableEq, Repr, Inhabited

def FailurePolicy.name : FailurePolicy → String
  | .abort => "abort"
  | .skip => "skip"

def Layout.toValue (layout : Layout) : Value :=
  .object [
    ("block", .text layout.block),
    ("cell", .text layout.cell),
    ("row", .text layout.row),
    ("textContainer", (layout.textContainer.map Value.text).getD .null)]

def BatchConfig.toValue (batch : BatchConfig) : Value :=
  .object [("failurePolicy", .text batch.failurePolicy.name)]

def ConverterConfig.toValue (converter : ConverterConfig) : Value :=
  .object [
    ("enabled", .bool converter.enabled),
    ("binary", .text converter.binary),
    ("format", .text converter.format)]

def Config.toValue (config : Config) : Value :=
  .object [
    ("structure", config.layout.toValue),
    ("batch", config.batch.toValue),
    ("converter", config.converter.toValue)]

end FormLetter
