/-!
# Arguments

A command line names a command and gives it options. An option with a value is given by its long
name, `--data file` or `--data=file`, or by its short one, `-d file`, `-dfile` or `-d=file`. Each
option is given at most once, and no value is empty. A value that starts with a dash has to be
attached to its option.
-/

namespace FormLetter.CommandLine

/-- An option. Those without a value have no short name. -/
inductive Flag where
  | config
  | template
  | data
  | output
  | convert
  | skipFailures
  deriving DecidableEq, Repr

namespace Flag

def long : Flag → String
  | .config => "config"
  | .template => "template"
  | .data => "data"
  | .output => "output"
  | .convert => "convert"
  | .skipFailures => "skip-failures"

def short? : Flag → Option Char
  | .config => some 'c'
  | .template => some 't'
  | .data => some 'd'
  | .output => some 'o'
  | .convert | .skipFailures => none

def takesValue (f : Flag) : Bool := f.short?.isSome

end Flag

inductive Command where
  | render (template data output : String) (convert : Bool)
  | batch (template data output : String) (convert skipFailures : Bool)
  | tags (template : String)
  deriving DecidableEq, Repr

structure Invocation where
  config : Option String
  command : Command
  deriving DecidableEq, Repr

/-- Why there is nothing to run. -/
inductive Refusal where
  | misuse
  | help
  deriving DecidableEq, Repr

abbrev Given := List (Flag × String)

/-- What comes after an option: it is all in the argument, or the value is the next. -/
inductive Reading where
  | complete (f : Flag) (value : String)
  | needsValue (f : Flag)
  deriving DecidableEq, Repr

/-- A long option, without its dashes. -/
def readLong (flags : List Flag) (cs : List Char) : Except Refusal Reading :=
  let name := String.ofList (cs.takeWhile (· != '='))
  let attached := (cs.dropWhile (· != '=')).tail?.map String.ofList
  if name = "help" ∧ attached = none then .error .help
  else
    match flags.find? (·.long == name), attached with
    | none, _ => .error .misuse
    | some f, some value => if f.takesValue then .ok (.complete f value) else .error .misuse
    | some f, none => .ok (if f.takesValue then .needsValue f else .complete f "")

/-- A short option, without its dash. -/
def readShort (flags : List Flag) : List Char → Except Refusal Reading
  | [] => .error .misuse
  | c :: cs =>
    if c = 'h' then .error .help
    else
      match flags.find? (·.short? == some c) with
      | none => .error .misuse
      | some f =>
        match cs with
        | [] => .ok (.needsValue f)
        | '=' :: value => .ok (.complete f (String.ofList value))
        | value => .ok (.complete f (String.ofList value))

/-- Whether an argument looks like an option. -/
def isOption (argument : String) : Bool :=
  match argument.toList with
  | '-' :: _ :: _ => true
  | _ => false

def Given.add (given : Given) (f : Flag) (value : String) : Except Refusal Given :=
  if given.any (·.1 == f) || (f.takesValue && value.isEmpty) then .error .misuse
  else .ok (given ++ [(f, value)])

/-- The options at the front of the arguments, and what follows them. -/
def readOptions (flags : List Flag) (given : Given) :
    List String → Except Refusal (Given × List String)
  | [] => .ok (given, [])
  | argument :: rest =>
    if argument = "--" then if rest.isEmpty then .ok (given, []) else .error .misuse
    else if !isOption argument then .ok (given, argument :: rest)
    else do
      let reading ← match argument.toList with
        | '-' :: '-' :: cs => readLong flags cs
        | _ :: cs => readShort flags cs
        | [] => .error .misuse
      match reading, rest with
      | .complete f value, rest => readOptions flags (← given.add f value) rest
      | .needsValue f, value :: rest =>
        if isOption value then .error .misuse
        else readOptions flags (← given.add f value) rest
      | .needsValue _, [] => .error .misuse

def Given.value? (given : Given) (f : Flag) : Option String :=
  (given.find? (·.1 == f)).map (·.2)

def Given.required (given : Given) (f : Flag) : Except Refusal String :=
  match given.value? f with
  | some value => .ok value
  | none => .error .misuse

def Given.has (given : Given) (f : Flag) : Bool := given.any (·.1 == f)

/-- The options of a command, and nothing after them. -/
def commandOptions (flags : List Flag) (arguments : List String) : Except Refusal Given := do
  match ← readOptions flags [] arguments with
  | (given, []) => return given
  | _ => throw .misuse

def readCommand (name : String) (arguments : List String) : Except Refusal Command := do
  if name = "render" then
    let given ← commandOptions [.template, .data, .output, .convert] arguments
    return .render (← given.required .template) (← given.required .data)
      (← given.required .output) (given.has .convert)
  else if name = "batch" then
    let given ← commandOptions [.template, .data, .output, .convert, .skipFailures] arguments
    return .batch (← given.required .template) (← given.required .data)
      (← given.required .output) (given.has .convert) (given.has .skipFailures)
  else if name = "tags" then
    return .tags (← (← commandOptions [.template] arguments).required .template)
  else if name = "help" then throw .help
  else throw .misuse

/-- Reads the arguments of a command line. -/
def readArguments (arguments : List String) : Except Refusal Invocation := do
  match ← readOptions [.config] [] arguments with
  | (_, []) => throw .misuse
  | (given, name :: rest) => return ⟨given.value? .config, ← readCommand name rest⟩

end FormLetter.CommandLine
