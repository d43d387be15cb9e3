import FormLetter.Filter.Basic
import FormLetter.Text.Case

/-!
# The case filters

`upper` and `lower` change the first argument or, without one, what is piped in. Of nothing they
make the empty text.
-/

namespace FormLetter.Filter

open FormLetter.Json

/-- A filter that rewrites the text of its first argument, or of its input. -/
def rewriting (name : String) (f : String → String) : Filter where
  name := name
  apply _ arguments input :=
    .ok (match arguments.head?.or input with
      | some v => f v.plain
      | none => "")

def upper : Filter := rewriting "upper" Text.upper

def lower : Filter := rewriting "lower" Text.lower

end FormLetter.Filter
