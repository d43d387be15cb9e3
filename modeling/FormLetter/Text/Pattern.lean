/-!
# Patterns in a text

A `Pattern` reads something from the front of a text. `first?` is the leftmost place where it
does, `split` cuts a text at all its places, left to right and without overlap: the text before
each, what was read there, and the text after the last. `replace` is the text with every place
rewritten.
-/

namespace FormLetter.Text

/-- What is read from the front of a text, with the rest, which is shorter. -/
structure Pattern (α : Type) where
  read : List Char → Option (α × List Char)
  shorter : ∀ {cs a rest}, read cs = some (a, rest) → rest.length < cs.length

/-- A place in a text: what stands before it, what is read there, and what stands after. -/
structure Occurrence (α : Type) where
  before : List Char
  value : α
  after : List Char

namespace Pattern

variable {α : Type} (p : Pattern α)

/-- The leftmost place where the pattern reads. -/
def first? : List Char → Option (Occurrence α)
  | [] => none
  | c :: cs =>
    match p.read (c :: cs) with
    | some (a, rest) => some ⟨[], a, rest⟩
    | none => (first? cs).map fun o => { o with before := c :: o.before }

theorem first?_shorter {cs : List Char} {o : Occurrence α} (h : p.first? cs = some o) :
    o.after.length < cs.length := by
  induction cs generalizing o with
  | nil => simp [first?] at h
  | cons c cs ih =>
    rw [first?] at h
    split at h
    · rename_i heq
      cases h
      exact p.shorter heq
    · obtain ⟨o', ho', rfl⟩ := Option.map_eq_some_iff.1 h
      have := ih ho'
      simp only [List.length_cons]
      omega

/-- All places, each with the text since the one before, and the text after the last. -/
def split (cs : List Char) : List (List Char × α) × List Char :=
  match _ : p.first? cs with
  | none => ([], cs)
  | some o =>
    let (pieces, last) := split o.after
    ((o.before, o.value) :: pieces, last)
termination_by cs.length
decreasing_by exact p.first?_shorter ‹_›

/-- Everything the pattern reads, in order. -/
def all (cs : List Char) : List α := (p.split cs).1.map (·.2)

def occursIn (cs : List Char) : Bool := (p.first? cs).isSome

def replace (f : α → List Char) (cs : List Char) : List Char :=
  let (pieces, last) := p.split cs
  pieces.flatMap (fun (before, a) => before ++ f a) ++ last

end Pattern

/-- The longest run of characters in `p`, and the rest. -/
def run (p : Char → Bool) (cs : List Char) : List Char × List Char :=
  (cs.takeWhile p, cs.dropWhile p)

theorem run_append (p : Char → Bool) (cs : List Char) : (run p cs).1 ++ (run p cs).2 = cs :=
  List.takeWhile_append_dropWhile

theorem run_rest_le (p : Char → Bool) (cs : List Char) : (run p cs).2.length ≤ cs.length := by
  have := congrArg List.length (run_append p cs)
  simp only [List.length_append] at this
  omega

/-- A run up to a closing character, and what follows it. -/
def enclosed? (p : Char → Bool) (close : Char) (cs : List Char) : Option (List Char × List Char) :=
  match run p cs with
  | (inside, c :: rest) => if c = close then some (inside, rest) else none
  | (_, []) => none

theorem enclosed?_shorter {p : Char → Bool} {close : Char} {cs inside rest : List Char}
    (h : enclosed? p close cs = some (inside, rest)) : rest.length < cs.length := by
  have hle := run_rest_le p cs
  unfold enclosed? at h
  split at h
  · rename_i heq
    split at h
    · cases h
      rw [heq] at hle
      simp only [List.length_cons] at hle
      omega
    · cases h
  · cases h

end FormLetter.Text
