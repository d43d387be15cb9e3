import FormLetter.Number.Decimal
import FormLetter.Text.Pattern

/-!
# Scripts

The office program may be a script in place of the real one. Scripts are read as far as such ones
go in the shell language: commands in sequence and in pipes, with assignments and redirections,
loops over words, and in words quotes and parameters.
-/

namespace FormLetter.Script

open FormLetter.Number FormLetter.Text

inductive Parameter where
  | argument (n : Nat)
  /-- All arguments: joined, or each as a word of its own. -/
  | arguments (joined : Bool)
  | count
  | status
  | process
  | named (name : String)
  deriving DecidableEq, Repr

/-- A piece of a word. An unquoted value may become several words, or none. -/
inductive Piece where
  | text (s : String) (quoted : Bool)
  | parameter (p : Parameter) (quoted : Bool)
  deriving DecidableEq, Repr

abbrev Word := List Piece

/-- Where a stream goes: to the file at a path, or where another stream goes. -/
inductive Redirect where
  | file (stream : Nat) (path : Word)
  | copy (stream : Nat) (source : Word)
  deriving DecidableEq, Repr

inductive Command where
  | simple (assignments : List (String × Word)) (words : List Word) (redirects : List Redirect)
  | pipe (first second : Command)
  | loop (name : String) (items : List Word) (body : List Command) (redirects : List Redirect)

inductive Token where
  | word (w : Word)
  /-- An arrow, with the stream that it is for. -/
  | arrow (stream : Nat)
  | mark (c : Char)
  deriving DecidableEq, Repr

/-- What the next character is part of. Where a parameter or an escaped character stands in double
quotes they are `inside`. -/
inductive Mode where
  | plain
  | single
  | double
  | escaped (inside : Bool)
  | dollar (inside : Bool) (name : List Char)
  | comment
  deriving DecidableEq, Repr

/-- The tokens so far and the pieces of the word that is begun, the last ones first. -/
structure Lexer where
  mode : Mode := .plain
  word : Option Word := none
  tokens : List Token := []

namespace Lexer

def add (l : Lexer) (p : Piece) : Lexer := { l with word := some (p :: l.word.getD []) }

def addChar (l : Lexer) (c : Char) (quoted : Bool) : Lexer :=
  match l.word with
  | some (.text s q :: pieces) =>
    if q = quoted then { l with word := some (.text (s.push c) q :: pieces) }
    else l.add (.text c.toString quoted)
  | _ => l.add (.text c.toString quoted)

def push (l : Lexer) (t : Token) : Lexer := { l with tokens := t :: l.tokens }

def endWord (l : Lexer) : Lexer :=
  match l.word with
  | some pieces => { l with word := none, tokens := .word pieces.reverse :: l.tokens }
  | none => l

/-- An arrow. A number that stands right before it is its stream. -/
def arrow (l : Lexer) : Lexer :=
  match l.word with
  | some [.text s false] =>
    if s.toList.all isDigit then { l with word := none }.push (.arrow (digitsValue s.toList))
    else l.endWord.push (.arrow 1)
  | _ => l.endWord.push (.arrow 1)

def stepPlain (l : Lexer) (c : Char) : Lexer :=
  if c = ' ' ∨ c = '\t' then l.endWord
  else if c = '\n' ∨ c = ';' ∨ c = '|' ∨ c = '&' then l.endWord.push (.mark c)
  else if c = '>' then l.arrow
  else if c = '#' ∧ l.word = none then { l with mode := .comment }
  else if c = '\'' then { l.add (.text "" true) with mode := .single }
  else if c = '"' then { l.add (.text "" true) with mode := .double }
  else if c = '\\' then { l with mode := .escaped false }
  else if c = '$' then { l with mode := .dollar false [] }
  else l.addChar c false

def stepDouble (l : Lexer) (c : Char) : Lexer :=
  if c = '"' then { l with mode := .plain }
  else if c = '\\' then { l with mode := .escaped true }
  else if c = '$' then { l with mode := .dollar true [] }
  else l.addChar c true

/-- A character after a backslash. In double quotes most keep the backslash. -/
def stepEscaped (l : Lexer) (inside : Bool) (c : Char) : Lexer :=
  if c = '\n' then l
  else if inside && !(['$', '"', '\\'].contains c) then (l.addChar '\\' true).addChar c true
  else l.addChar c true

def isNameStart (c : Char) : Bool := c.isAlpha || c == '_'

def isNameChar (c : Char) : Bool := c.isAlphanum || c == '_'

/-- The parameter that is one character. -/
def parameterOf? (c : Char) : Option Parameter :=
  if c = '@' then some (.arguments false)
  else if c = '*' then some (.arguments true)
  else if c = '#' then some .count
  else if c = '?' then some .status
  else if c = '$' then some .process
  else if isDigit c then some (.argument (digitValue c))
  else none

/-- The lexer behind a dollar sign and what could be read of a name. -/
def endName (l : Lexer) (inside : Bool) (name : List Char) : Lexer :=
  let l := { l with mode := if inside then .double else .plain }
  if name.isEmpty then l.addChar '$' inside
  else l.add (.parameter (.named (String.ofList name)) inside)

def stepDollar (l : Lexer) (inside : Bool) (name : List Char) (c : Char) : Lexer :=
  let next (l : Lexer) : Lexer := if inside then l.stepDouble c else l.stepPlain c
  if name.isEmpty then
    match parameterOf? c with
    | some p => { l with mode := if inside then .double else .plain }.add (.parameter p inside)
    | none =>
      if isNameStart c then { l with mode := .dollar inside [c] } else next (l.endName inside [])
  else if isNameChar c then { l with mode := .dollar inside (name ++ [c]) }
  else next (l.endName inside name)

def step (l : Lexer) (c : Char) : Lexer :=
  match l.mode with
  | .plain => l.stepPlain c
  | .single => if c = '\'' then { l with mode := .plain } else l.addChar c true
  | .double => l.stepDouble c
  | .escaped inside => { l with mode := if inside then .double else .plain }.stepEscaped inside c
  | .dollar inside name => l.stepDollar inside name c
  | .comment => if c = '\n' then { l with mode := .plain }.push (.mark c) else l

end Lexer

/-- The tokens of a script, unless a quote is not closed. -/
def tokens? (text : String) : Option (List Token) :=
  let l := text.toList.foldl Lexer.step {}
  match l.mode with
  | .plain | .comment => some l.endWord.tokens.reverse
  | .dollar false name => some (l.endName false name).endWord.tokens.reverse
  | _ => none

/-! ## Commands -/

/-- An assignment, if a word is one. -/
def assignment? : Word → Option (String × Word)
  | .text s false :: rest =>
    match run Lexer.isNameChar s.toList with
    | (c :: cs, '=' :: value) =>
      if Lexer.isNameStart c then
        some (String.ofList (c :: cs), .text (String.ofList value) true :: rest)
      else none
    | _ => none
  | _ => none

/-- The words at the front of some tokens, and what follows. -/
def wordsOf : List Token → List Word × List Token
  | .word w :: rest => let (words, rest) := wordsOf rest; (w :: words, rest)
  | rest => ([], rest)

def redirectsOf : List Token → List Redirect × List Token
  | .arrow n :: .mark '&' :: .word w :: rest =>
    let (redirects, rest) := redirectsOf rest
    (.copy n w :: redirects, rest)
  | .arrow n :: .word w :: rest =>
    let (redirects, rest) := redirectsOf rest
    (.file n w :: redirects, rest)
  | rest => ([], rest)

/-- A simple command. Redirections come last. -/
def simpleOf (tokens : List Token) : Command × List Token :=
  let (words, rest) := wordsOf tokens
  let (redirects, rest) := redirectsOf rest
  let assignments := (words.map assignment?).takeWhile Option.isSome
  (.simple assignments.reduceOption (words.drop assignments.length) redirects, rest)

def isSeparator (t : Token) : Bool := t == .mark ';' || t == .mark '\n'

def doneWord : Token := .word [.text "done" false]

mutual

/-- Reads a command, with those that it is piped to. -/
def readCommand : Nat → List Token → Option (Command × List Token)
  | 0, _ => none
  | fuel + 1, tokens => do
    let (command, rest) ← match tokens with
      | .word [.text "for" false] :: .word [.text name false] :: .word [.text "in" false] :: rest =>
        let (items, rest) := wordsOf rest
        match rest.dropWhile isSeparator with
        | .word [.text "do" false] :: rest =>
          let (body, rest) ← readCommands fuel rest
          if rest.head? ≠ some doneWord then none
          let (redirects, rest) := redirectsOf rest.tail
          some (.loop name items body redirects, rest)
        | _ => none
      | .word _ :: _ | .arrow _ :: _ => some (simpleOf tokens)
      | _ => none
    match rest with
    | .mark '|' :: rest =>
      let (second, rest) ← readCommand fuel rest
      return (.pipe command second, rest)
    | _ => return (command, rest)

/-- Reads commands up to the end of a loop or of all. -/
def readCommands : Nat → List Token → Option (List Command × List Token)
  | 0, _ => none
  | fuel + 1, tokens => do
    let tokens := tokens.dropWhile isSeparator
    if tokens.isEmpty ∨ tokens.head? = some doneWord then return ([], tokens)
    let (command, rest) ← readCommand fuel tokens
    if !(rest.isEmpty || rest.head?.any isSeparator) then none
    let (commands, rest) ← readCommands fuel rest
    return (command :: commands, rest)

end

/-- The commands of a script, if all of it can be read. -/
def parse? (text : String) : Option (List Command) := do
  let tokens ← tokens? text
  let (commands, rest) ← readCommands (2 * tokens.length + 1) tokens
  if rest.isEmpty then some commands else none

end FormLetter.Script
