import FormLetter.Batch.Basic
import FormLetter.CommandLine.Arguments
import FormLetter.Config.Reader
import FormLetter.Engine.Tags

/-!
# Commands

`render` makes one document of a template and data, `batch` an archive of documents, and `tags`
lists the tags of a template. What comes of a command is one JSON value on the output, and a
status: 0 if it succeeded, 2 if documents could not be made of what was given, else 1.
-/

namespace FormLetter

open FormLetter.Json FormLetter.Disk

def TagKind.toValue : TagKind → Value
  | .loopStart collection binding =>
    .object [("type", .text "loop_start"), ("collection", .text collection),
      ("binding", .text binding)]
  | .loopEnd => .object [("type", .text "loop_end")]
  | .expression => .object [("type", .text "expression")]

/-- The error is given only if there is one. -/
def TagReport.toValue (t : TagReport) : Value :=
  .object ([("tag", .text t.tag), ("kind", t.kind.toValue)] ++
    (t.error.map fun e => ("error", .text e.message)).toList)

def SkippedItem.toValue (s : SkippedItem) : Value :=
  .object [("index", .nat s.index), ("reason", .text s.reason)]

def BatchReport.toValue (r : BatchReport) : Value :=
  .object [("entries", .array (r.entries.map .text)),
    ("skipped", .array (r.skipped.map SkippedItem.toValue))]

namespace CommandLine

/-- Why a command failed: input that cannot be used, or documents that cannot be made. -/
inductive Failure where
  | usage (message : String)
  | generation (message : String)
  deriving DecidableEq, Repr

def Failure.message : Failure → String
  | .usage message => message
  | .generation message => message

def Failure.status : Failure → Nat
  | .usage _ => 1
  | .generation _ => 2

/-- What the process comes to: its status and its output. -/
structure Result where
  status : Nat
  output : String
  deriving DecidableEq, Repr

/-- Reads a file as text. -/
def readText (path : String) (failed : OsError → Failure) : Task Failure String := do
  let content ← (Disk.read path).orError failed
  match content.text with
  | .ok text => return text
  | .error e => throw (failed e)

def loadConfig : Option String → Task Failure Config
  | none => pure {}
  | some path => do
    let text ← readText path fun e =>
      .usage ("Failed to read config " ++ path ++ ": " ++ e.message)
    match Config.parse? text with
    | some config => return config
    | none => throw (.usage "Invalid config: not a configuration")

def loadTemplate (path : String) : Task Failure Package :=
  (Package.load path).orError fun e => .usage ("Failed to load template: " ++ e.message)

/-- Reads a JSON file, of which `shape?` takes what is wanted. -/
def loadData {α : Type} (path : String) (shape? : Value → Option α) : Task Failure α := do
  let text ← readText path fun e =>
    .usage ("Failed to read " ++ path ++ ": " ++ e.message)
  match (Value.parse? text).bind shape? with
  | some a => return a
  | none => throw (.usage "Invalid payload: not the data of a document")

def contextsOf? : Value → Option (List Context)
  | .array items => items.mapM Context.ofValue?
  | _ => none

/-! ## Commands -/

def successAt (output : String) : List (String × Value) :=
  [("success", .bool true), ("output", .text output)]

def render (engine : Engine) (converter : Option Converter) (template data output : String) :
    Task Failure Value := do
  let template ← loadTemplate template
  let ctx ← loadData data Context.ofValue?
  match engine.expand template.tree ctx with
  | .error e => throw (.generation e.message)
  | .ok tree =>
    let document := template.withTree tree
    match converter with
    | none => (document.save output).orError fun e => .usage e.message
    | some converter =>
      withTemporaryDirectory (fun e => .usage e.message) fun directory => do
        let saved := join directory "document.docx"
        (document.save saved).orError fun e => .usage e.message
        (converter.convert saved output).orError fun e => .generation e.message
    return .object (successAt output)

def batch (engine : Engine) (converter : Option Converter) (policy : FailurePolicy)
    (template data output : String) : Task Failure Value := do
  let template ← loadTemplate template
  let contexts ← loadData data contextsOf?
  let report ← (Batch.write ⟨engine, template, converter, policy⟩ contexts output).orError
    fun e => .generation e.message
  return .object (successAt output ++ [("report", report.toValue)])

def tags (engine : Engine) (template : String) : Task Failure Value := do
  let template ← loadTemplate template
  let reports := engine.tags template.tree
  return .object [("valid", .bool (reports.all (·.error.isNone))),
    ("tags", .array (reports.map TagReport.toValue))]

/-- Runs a command, converters with this runner. -/
def run (runner : Runner) (invocation : Invocation) : Task Failure Value := do
  let config ← loadConfig invocation.config
  let engine : Engine := ⟨.builtin, config.layout⟩
  let office := Converter.office runner config.converter.binary config.converter.format
  let converter (wanted : Bool) : Option Converter :=
    if wanted || config.converter.enabled then some office else none
  match invocation.command with
  | .render template data output convert =>
    render engine (converter convert) template data output
  | .batch template data output convert skipFailures =>
    let policy := if skipFailures then .skip else config.batch.failurePolicy
    batch engine (converter convert) policy template data output
  | .tags template => tags engine template

/-- The result of a command. -/
def Result.of : Except Failure Value → Result
  | .ok v => ⟨0, v.pretty ++ "\n"⟩
  | .error f =>
    let v : Value := .object [("success", .bool false), ("error", .text f.message)]
    ⟨f.status, v.compact ++ "\n"⟩

/-- The result of a command line on a disk, and the disk after it. -/
def execute (runner : Runner) (arguments : List String) (disk : Disk) : Result × Disk :=
  match readArguments arguments with
  | .error .misuse => (⟨2, ""⟩, disk)
  | .error .help => (⟨0, ""⟩, disk)
  | .ok invocation =>
    let (result, disk) := (run runner invocation).run disk
    (.of result, disk)

end CommandLine

end FormLetter
