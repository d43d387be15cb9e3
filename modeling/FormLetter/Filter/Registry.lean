import FormLetter.Filter.Case
import FormLetter.Filter.Date

/-!
# The filter registry

Filters by name. Names are the same in upper and lower case, and a filter replaces one of its
name.
-/

namespace FormLetter

structure Registry where
  filters : List (String × Filter)

namespace Registry

def empty : Registry := ⟨[]⟩

def register (r : Registry) (f : Filter) : Registry :=
  ⟨Fields.insert (Text.lower f.name) f r.filters⟩

/-- The registry of `upper`, `lower`, `date` and `number`. -/
def builtin : Registry :=
  [Filter.upper, Filter.lower, Filter.date, Filter.number].foldl register empty

def get? (r : Registry) (name : String) : Option Filter :=
  Fields.get? (Text.lower name) r.filters

def contains (r : Registry) (name : String) : Bool := (r.get? name).isSome

/-- The registered names in lower case, sorted. -/
def names (r : Registry) : List String :=
  (Fields.names r.filters).mergeSort fun a b => decide (a ≤ b)

end Registry

end FormLetter
