import FormLetter.Disk.Basic
import FormLetter.Text.Blank
import FormLetter.Text.Utf8

/-!
# Converters

A converter makes a file in another format of a saved document. The office converter leaves that
to a program: it runs it on a copy of the document in a directory of its own, and takes from there
what the program wrote. What is at the target is touched only if all went well.
-/

namespace FormLetter

open FormLetter.Disk FormLetter.Text

inductive ConvertError where
  | io (operation : String) (cause : OsError)
  /-- The program ended with another status than zero, or with none. -/
  | failed (status : Option Nat) (message : String)
  | missingOutput (path : String)
  deriving DecidableEq, Repr

/-- The status of a program, as a message has it. -/
def statusText : Option Nat → String
  | some n => "Some(" ++ toString n ++ ")"
  | none => "None"

def ConvertError.message : ConvertError → String
  | .io operation cause => "Failed to " ++ operation ++ ": " ++ cause.message
  | .failed status message =>
    "Failed to convert document. Error code: " ++ statusText status ++ ". " ++ message
  | .missingOutput path => "Converter produced no output at " ++ path

/-- A way to convert: the extension of what it makes, and the task for a source and a target. -/
structure Converter where
  extension : String
  convert : String → String → Task ConvertError Unit

/-- How a program ended, and what it wrote to its error stream. A program that was stopped has no
status. -/
structure Outcome where
  status : Option Nat
  errors : ByteArray

abbrev Runner := String → List String → Task OsError Outcome

namespace Converter

def documentName : String := "document"

def officeArguments (format imported directory : String) : List String :=
  ["--headless", "--convert-to", format, imported, "--outdir", directory]

/-- The converter that runs an office program. -/
def office (run : Runner) (binary format : String) : Converter where
  extension := format
  convert source target :=
    withTemporaryDirectory (.io "create temporary directory for conversion") fun directory => do
      let imported := join directory (documentName ++ ".docx")
      let exported := join directory (documentName ++ "." ++ format)
      (copy source imported).orError (.io ("copy " ++ imported ++ " for conversion"))
      let outcome ← (run binary (officeArguments format imported directory)).orError
        (.io ("run " ++ binary))
      if outcome.status ≠ some 0 then
        throw (.failed outcome.status
          (String.ofList (trim (Utf8.decode outcome.errors).toList)))
      if !isThere exported (← get) then throw (.missingOutput exported)
      (copy exported target).orError (.io ("move converted document to " ++ target))

/-- The content that a file is converted to. -/
def convertToContent (converter : Converter) (source : String) : Task ConvertError Content :=
  withTemporaryDirectory (.io "create temporary directory for conversion") fun directory => do
    let target := join directory ("converted." ++ converter.extension)
    converter.convert source target
    (Disk.read target).orError (.io ("read " ++ target))

end Converter

end FormLetter
