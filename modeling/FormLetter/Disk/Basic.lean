import FormLetter.Archive.Basic
import FormLetter.Disk.Error
import FormLetter.Disk.Path

/-!
# The disk

A `Disk` holds directories and files by location. Paths are followed from the root or from the
working directory. Every operation may fail for a reason that is in the disk, and also for one
that is not: `faults` says for each of the operations to come whether it fails like that.

A `Task` is a run on a disk that may fail; what it did before it failed stays done.
-/

namespace FormLetter

namespace Disk

inductive Item where
  | directory
  | file (content : Content) (executable : Bool)

end Disk

open Disk

/-- Items other than the root, by location, and the locations of the working directory and of the
directory for temporary files. -/
structure Disk where
  items : List (Location × Item)
  working : Location := []
  temporary : Location := []
  faults : List (Option OsError) := []

namespace Disk

def lookup (location : Location) : List (Location × Item) → Option Item
  | [] => none
  | (l, item) :: rest => if l = location then some item else lookup location rest

/-- The item at a location. The root is a directory. -/
def find? (d : Disk) (location : Location) : Option Item :=
  if location = [] then some .directory else lookup location d.items

def isDirectory (d : Disk) (location : Location) : Bool :=
  match d.find? location with
  | some .directory => true
  | _ => false

/-- The content of the file at a location. -/
def content? (d : Disk) (location : Location) : Option Content :=
  match d.find? location with
  | some (.file content _) => some content
  | _ => none

def store (location : Location) (item : Item) :
    List (Location × Item) → List (Location × Item)
  | [] => [(location, item)]
  | (l, i) :: rest => if l = location then (l, item) :: rest else (l, i) :: store location item rest

def put (d : Disk) (location : Location) (item : Item) : Disk :=
  { d with items := store location item d.items }

def remove (d : Disk) (location : Location) : Disk :=
  { d with items := d.items.filter fun (l, _) => !location.isPrefixOf l }

def namesIn (d : Disk) (location : Location) : List String :=
  d.items.filterMap fun (l, _) =>
    if l.dropLast = location then l.getLast? else none

/-- A name that is longer than every name on the disk, and so is none of them. -/
def freshName (d : Disk) : String :=
  let longest := (d.items.flatMap fun (l, _) => l.map String.length).foldl max 0
  ".tmp" ++ String.ofList (List.replicate longest '0')

/-- Follows the steps of a path. What is passed has to be a directory. -/
def follow (d : Disk) (location : Location) : List String → Except OsError Location
  | [] => .ok location
  | step :: rest =>
    match d.find? location with
    | none => .error .notFound
    | some (.file ..) => .error .notDirectory
    | some .directory =>
      if step = ".." then d.follow location.dropLast rest
      else d.follow (location ++ [step]) rest

/-- The location that a path leads to. There may be nothing there. -/
def locate (d : Disk) (path : String) : Except OsError Location :=
  if path = "" then .error .notFound
  else d.follow (if isAbsolute path then [] else d.working) (steps path)

def pathOf (location : Location) : String :=
  "/" ++ "/".intercalate location

end Disk

/-! ## Tasks -/

abbrev Task (ε α : Type) := ExceptT ε (StateM Disk) α

namespace Task

variable {ε ε' α : Type}

/-- What a task comes to, and the disk after it. -/
def runOn (t : Task ε α) (d : Disk) : Except ε α × Disk := t.run d

/-- Runs a task and then, whatever came of it, changes the disk. -/
def after (t : Task ε α) (cleanUp : Disk → Disk) : Task ε α := fun d =>
  let (result, d) := t.run d
  (result, cleanUp d)

/-- Runs a task and, if it fails, changes the disk. -/
def onFailure (t : Task ε α) (cleanUp : Disk → Disk) : Task ε α := fun d =>
  match t.run d with
  | (.ok a, d) => (.ok a, d)
  | (.error e, d) => (.error e, cleanUp d)

/-- What a task comes to, without failing if it fails. -/
def outcome (t : Task ε α) : Task ε' (Except ε α) := fun d =>
  let (result, d) := t.run d
  (.ok result, d)

def orError (t : Task ε α) (f : ε → ε') : Task ε' α := fun d =>
  let (result, d) := t.run d
  (result.mapError f, d)

end Task

namespace Disk

/-- Takes the next fault. -/
def attempt : Task OsError Unit := fun d =>
  match d.faults with
  | [] => (.ok (), d)
  | none :: faults => (.ok (), { d with faults := faults })
  | some e :: faults => (.error e, { d with faults := faults })

/-- An operation: a fault, or the change that it makes to the disk. -/
def operation {α : Type} (f : Disk → Except OsError (α × Disk)) : Task OsError α := do
  attempt
  fun d =>
    match f d with
    | .ok (a, d) => (.ok a, d)
    | .error e => (.error e, d)

/-- The content of a file. -/
def read (path : String) : Task OsError Content := operation fun d => do
  let location ← d.locate path
  match d.find? location with
  | none => throw .notFound
  | some .directory => throw .isDirectory
  | some (.file content _) =>
    if endsInDirectory path then throw .notDirectory
    return (content, d)

/-- Gives a file a content. It is made if it is not there. -/
def write (path : String) (content : Content) : Task OsError Unit := operation fun d => do
  let location ← d.locate path
  if d.isDirectory location || endsInDirectory path then throw .isDirectory
  let executable := match d.find? location with
    | some (.file _ executable) => executable
    | _ => false
  return ((), d.put location (.file content executable))

/-- Copies a file. -/
def copy (source target : String) : Task OsError Unit := do
  let content ← (read source).orError fun
    | .isDirectory => .notFile
    | e => e
  write target content

/-- Makes the directories that are missing on a way. -/
def makeSteps (d : Disk) (location : Location) : List String → Except OsError Disk
  | [] => .ok d
  | step :: rest =>
    if step = ".." then d.makeSteps location.dropLast rest
    else
      let next := location ++ [step]
      match d.find? next with
      | some .directory => d.makeSteps next rest
      | some (.file ..) => .error (if rest.isEmpty then .alreadyExists else .notDirectory)
      | none => (d.put next .directory).makeSteps next rest

/-- Makes a directory, and those around it that are missing. -/
def makeDirectories (path : String) : Task OsError Unit := operation fun d => do
  let d ← d.makeSteps (if isAbsolute path then [] else d.working) (steps path)
  return ((), d)

/-- Moves a file to a path, in the place of the file that is there. -/
def move (source : Location) (path : String) : Task OsError Unit := operation fun d => do
  let target ← d.locate path
  if lastPart path = "." || lastPart path = ".." || target = [] then throw .busy
  if endsInDirectory path then throw .notDirectory
  if d.isDirectory target then throw .isDirectory
  match d.content? source with
  | none => throw .notFound
  | some content =>
    return ((), ((d.remove source).put target (.file content false)))

/-- Runs a task with a new directory, which is taken away after it. -/
def withTemporaryDirectory {ε α : Type} (failed : OsError → ε) (body : String → Task ε α) :
    Task ε α := do
  let location ← (operation fun d =>
    let location := d.temporary ++ [d.freshName]
    .ok (location, d.put location .directory)).orError failed
  (body (pathOf location)).after (·.remove location)

/-- Runs a task with a new file in a directory. The task is to move the file to its place; if it
fails, the file is taken away. -/
def withTemporaryFile {ε α : Type} (directory : String) (failed : OsError → ε)
    (body : Location → Task ε α) : Task ε α := do
  let location ← (operation fun d => do
    let parent ← d.locate directory
    match d.find? parent with
    | none => throw .notFound
    | some (.file ..) => throw .notDirectory
    | some .directory =>
      let location := parent ++ [d.freshName]
      return (location, d.put location (.file (.bytes .empty) false))).orError failed
  (body location).onFailure (·.remove location)

/-- Whether something is at a path. A path that can only mean a directory does not lead to a
file. -/
def isThere (path : String) (d : Disk) : Bool :=
  match d.locate path with
  | .ok location =>
    if endsInDirectory path then d.isDirectory location else (d.find? location).isSome
  | .error _ => false

end Disk

end FormLetter
