import FormLetter.CommandLine.Run
import FormLetter.Script.Run

/-!
# The program

The files and directories that a command line names are read from the disk that is really there,
the command is executed on them, and what it changed is written back.
-/

namespace FormLetter.CommandLine

open FormLetter.Disk

/-- What is really at a location. -/
def realItem? (location : Location) : IO (Option Item) := do
  let path := pathOf location
  try
    let real ← IO.FS.realPath path
    if ← real.isDir then return some .directory
    return some (.file (.bytes (← IO.FS.readBinFile real)) true)
  catch _ => return none

/-- The disk with what is really at a location. -/
def loadAt (d : Disk) (location : Location) : IO Disk := do
  match d.find? location with
  | some _ => return d
  | none =>
    match ← realItem? location with
    | some item => return d.put location item
    | none => return d

/-- The disk with all that is on the way along a path. -/
def loadSteps (d : Disk) (location : Location) : List String → IO Disk
  | [] => return d
  | step :: rest => do
    if step = ".." then loadSteps d location.dropLast rest
    else
      let next := location ++ [step]
      loadSteps (← loadAt d next) next rest

def loadPath (d : Disk) (path : String) : IO Disk :=
  loadSteps d (if isAbsolute path then [] else d.working) (steps path)

/-- The paths that a command reads or writes. -/
def Command.paths : Command → List String
  | .render template data output _ => [template, data, output]
  | .batch template data output _ _ => [template, data, output]
  | .tags template => [template]

/-- The program that a configuration names. -/
def binaryOf (config : Option String) (d : Disk) : String :=
  match ((loadConfig config).run d).1 with
  | .ok config => config.converter.binary
  | .error _ => ConverterConfig.binary {}

/-- The disk that a command line is about. -/
def loadDisk (invocation : Invocation) : IO Disk := do
  let working := steps (← IO.currentDir).toString
  let d : Disk := { items := [], working := working, temporary := ["tmp"] }
  let d ← loadSteps (d.put ["tmp"] .directory) [] working
  let d ← (invocation.config.toList ++ invocation.command.paths).foldlM loadPath d
  loadPath d (binaryOf invocation.config d)

/-- Whether a disk has the same bytes at a location. -/
def hasBytes (d : Disk) (location : Location) (data : ByteArray) : Bool :=
  match d.content? location with
  | some (.bytes old) => old == data
  | _ => false

/-- Writes to the real disk what one disk has and another does not. -/
def storeChanges (before after : Disk) : IO Unit := do
  for (location, item) in after.items do
    let path := pathOf location
    match item with
    | .directory => if !before.isDirectory location then IO.FS.createDirAll path
    | .file content _ =>
      let data := content.toBytes
      if !hasBytes before location data then IO.FS.writeBinFile path data

/-- The result of a command line on the real disk. -/
def executeReal (arguments : List String) : IO Result := do
  match readArguments arguments with
  | .error _ => return (execute Script.run arguments ⟨[], [], [], []⟩).1
  | .ok invocation =>
    let before ← loadDisk invocation
    let (result, after) := execute Script.run arguments before
    try
      storeChanges before after
      return result
    catch e => return .of (.error (.usage (toString e)))

end FormLetter.CommandLine

def main (arguments : List String) : IO UInt32 := do
  let result ← FormLetter.CommandLine.executeReal arguments
  IO.print result.output
  return UInt32.ofNat result.status
