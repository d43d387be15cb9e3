import FormLetter.Script.Builtin

/-!
# Running scripts

`Command.run` runs a command by what it is made of. `run` is the outcome of the file at a path as a
program: a script, which the program in its first line runs, or one of a few programs that are
always there.
-/

namespace FormLetter.Script

open FormLetter.Disk FormLetter.Text

/-- Sends a stream where a redirection says; whether it can be. -/
def Redirect.make : Redirect → Action Bool
  | .copy stream source => do
    let s ← get
    match (expandText s source).toNat? with
    | some n =>
      set { s with sinks := (stream, s.sink n) :: s.sinks }
      return true
    | none => return false
  | .file stream path => do
    let path := expandText (← get) path
    if path = "/dev/null" then
      modify fun s => { s with sinks := (stream, .nowhere) :: s.sinks }
      return true
    match ← onDisk (Disk.write path (.bytes .empty)), (← get).disk.locate path with
    | .ok _, .ok location =>
      modify fun s => { s with sinks := (stream, .file location) :: s.sinks }
      return true
    | _, _ => return false

/-- Runs an action with redirections, which are undone after it. -/
def redirected (redirects : List Redirect) (body : Action Nat) : Action Nat := do
  let sinks := (← get).sinks
  let made ← redirects.foldlM (fun made r => if made then r.make else return false) true
  let status ← if made then body else refuse 2 "cannot create file"
  modify fun s => { s with sinks := sinks }
  return status

/-- Notes the status of a command, which ends the script if it must not be a failure. -/
def checked (status : Nat) : Action Nat := do
  modify fun s => { s with status := status }
  if status ≠ 0 && (← get).stopsAtFailure then throw (.exit status)
  return status

/-- Runs an action in a process of its own. The disk and what it wrote remain. -/
def inSubshell (body : Action Nat) : Action Nat := fun s =>
  let (result, t) := body.run s
  let s := { s with disk := t.disk, output := t.output, errors := t.errors }
  match result with
  | .ok status | .error (.exit status) => (.ok status, s)
  | .error .killed => (.ok 137, s)

/-- Runs an action with what another one writes as its input. -/
def piped (first second : Action Nat) : Action Nat := do
  let before ← get
  set { before with output := .empty, sinks := (1, .output) :: before.sinks }
  let _ ← inSubshell first
  let written := (← get).output
  modify fun s => { s with output := before.output, input := written, sinks := before.sinks }
  let status ← inSubshell second
  modify fun s => { s with input := before.input }
  return status

def assign (name value : String) : Action Unit :=
  modify fun s => { s with bindings := Fields.insert name value s.bindings }

mutual

/-- Runs a command: its status. -/
def Command.run : Command → Action Nat
  | .simple assignments words redirects => do
    let s ← get
    let words := words.flatMap (expand s)
    let status ← redirected redirects do
      assignments.forM fun (name, w) => do assign name (expandText (← get) w)
      match words with
      | [] => return 0
      | name :: words => perform name words
    checked status
  | .pipe first second => do
    let status ← piped first.run second.run
    checked status
  | .loop name items body redirects => do
    let words := items.flatMap (expand (← get))
    redirected redirects (words.foldlM (fun _ word => do assign name word; runAll body) 0)

/-- Runs commands one after the other: the status of the last one. -/
def runAll : List Command → Action Nat
  | [] => return 0
  | c :: rest => do
    let status ← c.run
    if rest.isEmpty then return status else runAll rest

end

/-! ## Starting programs -/

/-- The directories that there are on every system. -/
def standingDirectories : List Location :=
  [[], ["bin"], ["boot"], ["dev"], ["etc"], ["home"], ["lib"], ["media"], ["mnt"], ["opt"],
    ["proc"], ["root"], ["run"], ["sbin"], ["srv"], ["sys"], ["tmp"], ["usr"], ["usr", "bin"],
    ["usr", "lib"], ["usr", "local"], ["usr", "local", "bin"], ["usr", "sbin"], ["usr", "share"],
    ["var"], ["var", "tmp"]]

/-- The name of the program at a path that is there without being on the disk. -/
def programAt? (path : String) : Option String :=
  match steps path with
  | ["bin", name] | ["usr", "bin", name] =>
    if isAbsolute path && ("sh" :: programNames).contains name then some name else none
  | _ => none

/-- The program in the first line of a script and its one argument, which may have blanks in it. -/
def firstLine? (text : String) : Option (String × Option String) :=
  match text.toList with
  | '#' :: '!' :: cs =>
    let isSpace (c : Char) : Bool := c == ' ' || c == '\t'
    let line := (cs.takeWhile (· != '\n')).dropWhile isSpace
    let (program, rest) := Text.run (!isSpace ·) line
    let argument := ((rest.dropWhile isSpace).reverse.dropWhile isSpace).reverse
    if program.isEmpty then none
    else some (String.ofList program,
      if argument.isEmpty then none else some (String.ofList argument))
  | _ => none

def mostScripts : Nat := 5

/-- The program that the file at a path is run by, and the words that it gets. A script gives its
own path to the program in its first line. -/
def launch (d : Disk) : Nat → String → List String → Except OsError (String × List String)
  | 0, _, _ => .error .notExecutable
  | n + 1, path, words =>
    match programAt? path with
    | some name => .ok (name, words)
    | none => do
      let location ← d.locate path
      match d.find? location with
      | none => .error .notFound
      | some .directory => .error .permissionDenied
      | some (.file content executable) =>
        if !executable then .error .permissionDenied
        else
          match firstLine? (Utf8.decode content.toBytes) with
          | none => .error .notExecutable
          | some (program, argument) => launch d n program (argument.toList ++ path :: words)

/-- Runs the script at a path in the shell, which may be told to stop at a failure. -/
def shell : List String → Action Nat
  | [] => return 0
  | "-e" :: words => do
    modify fun s => { s with stopsAtFailure := true }
    shell words
  | path :: words => do
    modify fun s => { s with name := path, arguments := words }
    match ← onDisk (Disk.read path) with
    | .error e => refuse 127 ("cannot open " ++ path ++ ": " ++ e.message)
    | .ok content =>
      match parse? (Utf8.decode content.toBytes) with
      | none => refuse 2 "Syntax error"
      | some commands => runAll commands

def runProgram : String → List String → Action Nat
  | "sh", words | "env", "sh" :: words => shell words
  | "env", name :: words => perform name words
  | name, words => perform name words

/-- Runs the program at a path. A name without a slash is one of those that are always there. -/
def run : Runner := fun path words d =>
  match launch d mostScripts (if path.contains '/' then path else join "/bin" path) words with
  | .error e => (.error e, d)
  | .ok (name, words) =>
    let (result, s) := (runProgram name words).run { disk := d, name := path, arguments := [] }
    let status := match result with
      | .ok status | .error (.exit status) => some (status % 256)
      | .error .killed => none
    (.ok ⟨status, s.errors⟩, s.disk)

end FormLetter.Script
