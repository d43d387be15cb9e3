import FormLetter.Archive.Zip
import FormLetter.Disk.Basic
import FormLetter.Xml.Merge
import FormLetter.Xml.Reader
import FormLetter.Xml.Writer

/-!
# Packages

A package is a document kept as an archive of parts. One part is the body, an XML document with
tags in its text; all other parts are passed on as they are, damaged or not, but a package with a
closed part cannot be saved. A saved package has its body last.
-/

namespace FormLetter

open FormLetter.Archive FormLetter.Disk FormLetter.Xml

/-- Why something is not a package, or cannot be read or written. -/
inductive DocumentError where
  | io (operation : String) (cause : OsError)
  | archive (cause : ArchiveError)
  | xml (cause : XmlError)
  | missingPart (name : String)
  deriving DecidableEq, Repr

def DocumentError.message : DocumentError → String
  | .io operation cause => "Failed to " ++ operation ++ ": " ++ cause.message
  | .archive cause => "Invalid package: " ++ cause.message
  | .xml cause => "Invalid XML: " ++ cause.message
  | .missingPart name => "Package has no '" ++ name ++ "' part"

structure Package where
  parts : List Content.Entry
  body : Xml.Document

namespace Package

def bodyPart : String := "word/document.xml"

def isBody (part : Content.Entry) : Bool := part.name == bodyPart

/-- The body that an XML text is. Markup inside of tags is taken out first. -/
def readBody (text : String) : Except DocumentError Xml.Document :=
  (Xml.Document.parse (mergeTags text)).mapError .xml

/-- The text of a part. -/
def partText (part : Content.Entry) : Except DocumentError String :=
  match part.content with
  | .closed cause => .error (.archive cause)
  | content => content.text.mapError (.io ("read " ++ part.name))

/-- The package that a content is. -/
def ofContent (content : Content) : Except DocumentError Package := do
  let parts ← content.entries.mapError .archive
  match parts.find? isBody with
  | none => throw (.missingPart bodyPart)
  | some part => return ⟨parts, ← readBody (← partText part)⟩

def tree (p : Package) : Node := p.body.root

/-- The package with another tree in its body. -/
def withTree (p : Package) (tree : Node) : Package :=
  { p with body := { p.body with root := tree } }

def bodyText (p : Package) : String := p.body.write

def bodyEntry (p : Package) : Content.Entry := ⟨bodyPart, .deflated, .ofText p.bodyText⟩

/-- The parts before the first closed one, and why it is closed. -/
def openParts : List Content.Entry → List Content.Entry × Option ArchiveError
  | [] => ([], none)
  | part :: parts =>
    match part.content with
    | .closed cause => ([], some cause)
    | _ =>
      let (others, cause) := openParts parts
      (part :: others, cause)

def passedParts (p : Package) : List Content.Entry × Option ArchiveError :=
  openParts (p.parts.filter (!isBody ·))

/-- The parts as they are saved. -/
def savedParts (p : Package) : Except DocumentError (List Content.Entry) :=
  match p.passedParts with
  | (_, some cause) => .error (.archive cause)
  | (parts, none) => .ok (parts ++ [p.bodyEntry])

def toContent (p : Package) : Except DocumentError Content :=
  p.savedParts.map .archive

def load (path : String) : Task DocumentError Package := do
  let content ← (Disk.read path).orError (.io ("read " ++ path))
  fun d => (ofContent content, d)

/-- Writes a package to a file. If a part is closed, the file holds the parts before it. -/
def save (p : Package) (path : String) : Task DocumentError Unit := do
  let create (parts : List Content.Entry) : Task DocumentError Unit :=
    (Disk.write path (.archive parts)).orError (.io ("create " ++ path))
  match p.savedParts with
  | .ok parts => create parts
  | .error cause =>
    create p.passedParts.1
    throw cause

end Package

end FormLetter
