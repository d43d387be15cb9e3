import FormLetter.Config.Basic
import FormLetter.Converter.Basic
import FormLetter.Engine.Basic
import FormLetter.Package.Basic

/-!
# Batches

A batch makes one document for each context and puts them, converted or not, into one archive. It
works in a directory of its own and writes the archive next to the output; only the complete
archive is moved there.
-/

namespace FormLetter

open FormLetter.Disk

/-- Why a document of a batch cannot be made. -/
inductive ItemError where
  | template (cause : TemplateError)
  | document (cause : DocumentError)
  | convert (cause : ConvertError)
  deriving DecidableEq, Repr

def ItemError.message : ItemError → String
  | .template cause => cause.message
  | .document cause => cause.message
  | .convert cause => cause.message

inductive BatchError where
  | item (index : Nat) (cause : ItemError)
  | io (operation : String) (cause : OsError)
  | archive (cause : OsError)
  deriving DecidableEq, Repr

def BatchError.message : BatchError → String
  | .item index cause => "Document " ++ toString index ++ " failed: " ++ cause.message
  | .io operation cause => "Failed to " ++ operation ++ ": " ++ cause.message
  | .archive cause => "Failed to write archive: i/o error: " ++ cause.message

/-- A document that was left out. -/
structure SkippedItem where
  index : Nat
  reason : String
  deriving DecidableEq, Repr

/-- The names of the entries that a batch made, and what it left out, both in order. -/
structure BatchReport where
  entries : List String := []
  skipped : List SkippedItem := []
  deriving DecidableEq, Repr, Inhabited

structure Batch where
  engine : Engine
  template : Package
  converter : Option Converter := none
  policy : FailurePolicy := .abort

namespace Batch

def documentExtension : String := "docx"

def entryName (index : Nat) (extension : String) : String :=
  "document" ++ toString index ++ "." ++ extension

/-- Makes the document of a context in a directory: its path, and the name of its entry. -/
def makeItem (batch : Batch) (directory : String) (index : Nat) (ctx : Context) :
    Task ItemError (String × String) := do
  match batch.engine.expand batch.template.tree ctx with
  | .error e => throw (.template e)
  | .ok tree =>
    let saved := join directory (entryName index documentExtension)
    ((batch.template.withTree tree).save saved).orError .document
    match batch.converter with
    | none => return (saved, entryName index documentExtension)
    | some converter =>
      let name := entryName index converter.extension
      let target := join directory ("converted-" ++ name)
      (converter.convert saved target).orError .convert
      return (target, name)

/-- The archive as far as it is written. -/
structure Progress where
  entries : List Content.Entry := []
  report : BatchReport := {}

def writeEntries (archive : Location) (entries : List Content.Entry) : Task OsError Unit :=
  Disk.write (pathOf archive) (.archive entries)

/-- Adds a file to the archive. -/
def addItem (archive : Location) (progress : Progress) (path name : String) :
    Task BatchError Progress := do
  let entry (content : Content) : List Content.Entry :=
    progress.entries ++ [⟨name, .deflated, content⟩]
  (writeEntries archive (entry (.bytes .empty))).orError .archive
  let content ← (Disk.read path).orError (.io ("open " ++ path))
  (writeEntries archive (entry content)).orError (.io ("add " ++ name ++ " to archive"))
  return ⟨entry content, { progress.report with entries := progress.report.entries ++ [name] }⟩

/-- Makes and adds the documents of the contexts, the first of which has this index. -/
def addItems (batch : Batch) (directory : String) (archive : Location) (index : Nat)
    (progress : Progress) : List Context → Task BatchError Progress
  | [] => pure progress
  | ctx :: contexts => do
    match ← (batch.makeItem directory index ctx).outcome with
    | .ok (path, name) =>
      let progress ← addItem archive progress path name
      batch.addItems directory archive (index + 1) progress contexts
    | .error cause =>
      match batch.policy with
      | .abort => throw (.item index cause)
      | .skip =>
        let skipped := progress.report.skipped ++ [⟨index, cause.message⟩]
        batch.addItems directory archive (index + 1)
          { progress with report := { progress.report with skipped := skipped } } contexts

/-- The directory that a path is in. -/
def directoryOf (path : String) : String :=
  match parent? path with
  | none | some "" => "."
  | some parent => parent

/-- Writes the archive with a document for each context to a path. -/
def write (batch : Batch) (contexts : List Context) (output : String) :
    Task BatchError BatchReport := do
  let parent := directoryOf output
  (makeDirectories parent).orError (.io ("create directory " ++ parent))
  withTemporaryDirectory (.io "create temporary working directory") fun directory =>
    withTemporaryFile parent (.io ("create temporary archive in " ++ parent)) fun archive => do
      let progress ← batch.addItems directory archive 0 {} contexts
      (writeEntries archive progress.entries).orError .archive
      (move archive output).orError (.io ("move archive to " ++ output))
      return progress.report

end Batch

end FormLetter
