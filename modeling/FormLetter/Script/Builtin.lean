import FormLetter.Archive.Zip
import FormLetter.Converter.Basic
import FormLetter.Fields
import FormLetter.Script.Syntax

/-!
# The commands of scripts

A running script has a `State`: the disk, what its parameters stand for, and where its streams go.
An `Action` is a part of its run, at which the run may end.
-/

namespace FormLetter.Script

open FormLetter.Disk FormLetter.Number FormLetter.Text

/-- Where what is written to a stream goes. -/
inductive Sink where
  | output
  | errors
  | file (location : Location)
  | nowhere
  deriving DecidableEq, Repr

structure State where
  disk : Disk
  name : String
  arguments : List String
  bindings : List (String × String) := []
  status : Nat := 0
  stopsAtFailure : Bool := false
  input : ByteArray := .empty
  output : ByteArray := .empty
  errors : ByteArray := .empty
  sinks : List (Nat × Sink) := [(1, .output), (2, .errors)]

/-- Why no command follows. -/
inductive Ending where
  | exit (status : Nat)
  | killed
  deriving DecidableEq, Repr

abbrev Action (α : Type) := ExceptT Ending (StateM State) α

def State.sink (s : State) (stream : Nat) : Sink :=
  ((s.sinks.find? (·.1 == stream)).map (·.2)).getD .nowhere

/-- Writes to a stream. -/
def writeTo (stream : Nat) (data : ByteArray) : Action Unit :=
  modify fun s =>
    match s.sink stream with
    | .output => { s with output := s.output ++ data }
    | .errors => { s with errors := s.errors ++ data }
    | .nowhere => s
    | .file location =>
      match s.disk.find? location with
      | some (.file content executable) =>
        let content : Content := .bytes (content.toBytes ++ data)
        { s with disk := s.disk.put location (.file content executable) }
      | _ => s

def emit (s : String) : Action Unit := writeTo 1 s.toUTF8

/-- Tells on the error stream what went wrong: the status of the command. -/
def refuse (status : Nat) (reason : String) : Action Nat := do
  writeTo 2 ((← get).name ++ ": " ++ reason ++ "\n").toUTF8
  return status

/-- Runs an operation on the disk. -/
def onDisk {α : Type} (t : Task OsError α) : Action (Except OsError α) := do
  let s ← get
  let (result, disk) := t.run s.disk
  set { s with disk := disk }
  return result

def processNumber : String := "1"

/-- The texts that a parameter stands for: all arguments may be several. -/
def Parameter.values (s : State) : Parameter → List String
  | .argument 0 => [s.name]
  | .argument (n + 1) => [(s.arguments[n]?).getD ""]
  | .arguments true => [" ".intercalate s.arguments]
  | .arguments false => s.arguments
  | .count => [toString s.arguments.length]
  | .status => [toString s.status]
  | .process => [processNumber]
  | .named name => [(Fields.get? name s.bindings).getD ""]

def Piece.values (s : State) : Piece → List String
  | .text t _ => [t]
  | .parameter p true => p.values s
  | .parameter p false => (p.values s).flatMap fun value =>
    (value.split Char.isWhitespace).toStringList.filter (· ≠ "")

/-- The words that texts make behind the word that is begun, and the one that is begun then. -/
def attach (begun : Option String) : List String → List String × Option String
  | [] => ([], begun)
  | [value] => ([], some (begun.getD "" ++ value))
  | value :: rest =>
    let (words, last) := attach none rest
    ((begun.getD "" ++ value) :: words, last)

def expandPieces (s : State) (begun : Option String) : List Piece → List String
  | [] => begun.toList
  | p :: pieces =>
    let (words, begun) := attach begun (p.values s)
    words ++ expandPieces s begun pieces

/-- The words that a word stands for. -/
def expand (s : State) (w : Word) : List String := expandPieces s none w

def expandText (s : State) (w : Word) : String := String.join (w.flatMap (Piece.values s))

def isOctal (c : Char) : Bool := '0' ≤ c && c ≤ '7'

def octalByte (digits : List Char) : UInt8 :=
  UInt8.ofNat (digits.foldl (fun n c => 8 * n + digitValue c) 0)

/-- The bytes of a text in which a backslash gives characters another meaning. -/
def unescape : List Char → List UInt8
  | '\\' :: 'n' :: cs => 10 :: unescape cs
  | '\\' :: 't' :: cs => 9 :: unescape cs
  | '\\' :: '\\' :: cs => 92 :: unescape cs
  | '\\' :: a :: b :: c :: cs =>
    if [a, b, c].all isOctal then octalByte [a, b, c] :: unescape cs
    else 92 :: unescape (a :: b :: c :: cs)
  | c :: cs => c.toString.toUTF8.toList ++ unescape cs
  | [] => []

def bytesOf (s : String) : ByteArray := ⟨(unescape s.toList).toArray⟩

/-- A character of a pattern, or any; perhaps a run of such. -/
structure Item where
  char : Option Char
  repeated : Bool
  deriving DecidableEq, Repr

def Item.covers (i : Item) (c : Char) : Bool := i.char.all (· == c)

def itemsOf : List Char → List Item
  | '\\' :: c :: cs => ⟨some c, false⟩ :: itemsOf cs
  | '.' :: '*' :: cs => ⟨none, true⟩ :: itemsOf cs
  | '.' :: cs => ⟨none, false⟩ :: itemsOf cs
  | c :: '*' :: cs => ⟨some c, true⟩ :: itemsOf cs
  | c :: cs => ⟨some c, false⟩ :: itemsOf cs
  | [] => []

/-- What is left of a text behind what a pattern covers at its front, which is as much as can be. -/
def afterItems? : List Item → List Char → Option (List Char)
  | [], cs => some cs
  | i :: items, cs =>
    if i.repeated then
      let most := (cs.takeWhile i.covers).length
      (List.range (most + 1)).reverse.findSome? fun n => afterItems? items (cs.drop n)
    else
      match cs with
      | c :: rest => if i.covers c then afterItems? items rest else none
      | [] => none

/-- A line with the first text that a pattern covers replaced. -/
def replaceFirst (items : List Item) (text : List Char) : List Char → List Char
  | [] => if (afterItems? items []).isSome then text else []
  | c :: cs =>
    match afterItems? items (c :: cs) with
    | some rest => text ++ rest
    | none => c :: replaceFirst items text cs

/-- A line with a pattern replaced, which may be for its start only. -/
def edit (pattern text line : List Char) : List Char :=
  match pattern with
  | '^' :: pattern =>
    match afterItems? (itemsOf pattern) line with
    | some rest => text ++ rest
    | none => line
  | _ => replaceFirst (itemsOf pattern) text line

/-! ## Commands -/

/-- The last part of a path that has more than slashes. -/
def baseName (path : String) : String :=
  match (slashParts path.toList).filter (!·.isEmpty) |>.getLast? with
  | some part => String.ofList part
  | none => if path = "" then "" else "/"

/-- Writes files to the output, or the input if there are none. -/
def concatenate : List String → Action Nat
  | [] => return 0
  | path :: paths => do
    match ← onDisk (Disk.read path) with
    | .ok content =>
      writeTo 1 content.toBytes
      concatenate paths
    | .error e =>
      let status ← refuse 1 ("cat: " ++ path ++ ": " ++ e.message)
      let _ ← concatenate paths
      return status

def editInput (script : String) : Action Nat := do
  match script.splitOn "/" with
  | ["s", pattern, text, ""] =>
    let edited (line : String) : String :=
      String.ofList (edit pattern.toList text.toList line.toList)
    let lines := (Utf8.decode (← get).input).splitOn "\n"
    emit (String.join (lines.dropLast.map fun line => edited line ++ "\n"))
    -- what follows the last newline is a line only if there is something
    if let some line := lines.getLast?.filter (· ≠ "") then emit (edited line)
    return 0
  | _ => refuse 1 ("sed: " ++ script)

def programNames : List String :=
  ["env", "true", "false", "echo", "printf", "cat", "basename", "sed"]

/-- Runs the command of a name. -/
def perform (name : String) (words : List String) : Action Nat := do
  match name, words with
  | ":", _ | "true", _ => return 0
  | "false", _ => return 1
  | "exit", words => throw (.exit ((words.head?.bind String.toNat?).getD (← get).status))
  | "kill", ["-9", process] =>
    if process = processNumber then throw .killed else refuse 1 "kill: No such process"
  | "set", ["-e"] => modify fun s => { s with stopsAtFailure := true }; return 0
  | "set", "--" :: words => modify fun s => { s with arguments := words }; return 0
  | "shift", words =>
    let n := (words.head?.bind String.toNat?).getD 1
    if (← get).arguments.length < n then throw (.exit (← refuse 2 "shift: can't shift that many"))
    modify fun s => { s with arguments := s.arguments.drop n }
    return 0
  | "echo", words =>
    writeTo 1 (bytesOf (" ".intercalate words ++ "\n"))
    return 0
  | "printf", text :: _ =>
    writeTo 1 (bytesOf text)
    return 0
  | "cat", [] =>
    writeTo 1 (← get).input
    return 0
  | "cat", paths => concatenate paths
  | "basename", ["--", path] | "basename", [path] =>
    emit (baseName path ++ "\n")
    return 0
  | "sed", [script] => editInput script
  | _, _ => refuse 127 (name ++ ": not found")

end FormLetter.Script
