/-!
# Paths

A path is cut at slashes into parts. Empty parts and `.` lead nowhere, `..` leads up. A path with
a slash or a dot at its end can only mean a directory. `parent?` is the path of the directory that
a path is in.
-/

namespace FormLetter.Disk

abbrev Location := List String

/-- The pieces of a text between slashes. -/
def slashParts : List Char → List (List Char)
  | [] => [[]]
  | c :: cs =>
    if c = '/' then [] :: slashParts cs
    else match slashParts cs with
      | [] => [[c]]
      | part :: parts => (c :: part) :: parts

def steps (path : String) : List String :=
  ((slashParts path.toList).map String.ofList).filter fun part => part ≠ "" && part ≠ "."

def isAbsolute (path : String) : Bool := path.toList.head? == some '/'

def lastPart (path : String) : String :=
  String.ofList ((slashParts path.toList).getLast?.getD [])

/-- Whether a path can only mean a directory that is there. -/
def endsInDirectory (path : String) : Bool :=
  let part := lastPart path
  part = "" || part = "." || part = ".."

/-- Slashes, and dots that follow a slash, taken off the end of a path that is written
backwards. -/
def dropTrail : List Char → List Char
  | ['/'] => ['/']
  | '/' :: cs => dropTrail cs
  | '.' :: '/' :: cs => dropTrail ('/' :: cs)
  | cs => cs
termination_by cs => cs.length

/-- The path that the last part of a path is in, empty if there is only that part. The root has no
parent. -/
def parent? (path : String) : Option String :=
  match dropTrail path.toList.reverse with
  | [] => none
  | ['/'] => none
  | cs => some (String.ofList (dropTrail (cs.dropWhile (· != '/'))).reverse)

def join (path part : String) : String := path ++ "/" ++ part

end FormLetter.Disk
