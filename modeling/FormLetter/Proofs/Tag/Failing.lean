import FormLetter.Proofs.Tag.Rendering
import FormLetter.Proofs.Text.Case

/-!
# How a tag fails

A tag that can be read calls no filters but registered ones (`Expression.isRegistered_parse`). So
when it is evaluated nothing goes wrong but in a filter (`isFilter_of_evalTag`).
-/

namespace FormLetter

open FormLetter.Json FormLetter.Text

/-- The failure of a filter, rather than something wrong with the template itself. -/
def TemplateError.IsFilter : TemplateError → Prop
  | .filter _ _ => True
  | _ => False

namespace Tag

variable {registry : Registry} {ctx : Context}

def Segment.IsRegistered (registry : Registry) : Segment → Prop
  | .call name _ => (registry.get? name).isSome = true
  | _ => True

def Expression.IsRegistered (registry : Registry) (e : Expression) : Prop :=
  ∀ s ∈ e.segments, s.IsRegistered registry

theorem Segment.isRegistered_ofTokens {piped : Bool} {head : Token} {arguments : List Token}
    {s : Segment} (h : Segment.ofTokens registry piped head arguments = .ok s) :
    s.IsRegistered registry := by
  rw [ofTokens] at h
  split at h
  · rename_i hcall
    cases h
    cases head with
    | word name =>
      rw [Token.isCall, Bool.and_eq_true] at hcall
      rw [IsRegistered, Token.name, Registry.get?_lower]
      exact hcall.1
    | «variable» path => cases hcall
    | literal text => cases hcall
  · split at h
    · cases h
      cases head <;> trivial
    · cases h

theorem isRegistered_segmentsOfTokens {piped : Bool} {tokens : List (List Token)}
    {segments : List Segment} (h : segmentsOfTokens registry piped tokens = .ok segments) :
    ∀ s ∈ segments, s.IsRegistered registry := by
  induction tokens generalizing piped segments with
  | nil =>
    cases h
    exact List.forall_mem_nil _
  | cons first rest ih =>
    cases first with
    | nil => exact ih h
    | cons head arguments =>
      rw [segmentsOfTokens] at h
      obtain ⟨s, hs, h⟩ := Except.bind_eq_ok.1 h
      obtain ⟨others, hothers, h⟩ := Except.bind_eq_ok.1 h
      cases h
      exact List.forall_mem_cons.2 ⟨Segment.isRegistered_ofTokens hs, ih hothers⟩

theorem Expression.isRegistered_parse {raw : String} {e : Expression}
    (h : Expression.parse registry raw = .ok e) : e.IsRegistered registry := by
  rw [parse] at h
  split at h
  · cases h
  · obtain ⟨segments, hs, h⟩ := Except.bind_eq_ok.1 h
    cases h
    exact isRegistered_segmentsOfTokens hs

theorem Segment.isFilter_of_eval {s : Segment} (hs : s.IsRegistered registry)
    {input : Option Value} {e : TemplateError} (h : s.eval registry ctx input = .error e) :
    e.IsFilter := by
  cases s with
  | «variable» path => cases h
  | literal text => cases h
  | call name arguments =>
    obtain ⟨filter, hf⟩ := Option.isSome_iff_exists.1 hs
    rw [eval, hf] at h
    simp only at h
    split at h
    · cases h
    · cases h
      trivial

theorem Expression.isFilter_of_eval {expression : Expression}
    (he : expression.IsRegistered registry) {e : TemplateError}
    (h : expression.eval registry ctx = .error e) : e.IsFilter := by
  obtain ⟨segments⟩ := expression
  rw [eval] at h
  generalize (none : Option Value) = input at h
  induction segments generalizing input with
  | nil => cases h
  | cons s segments ih =>
    rw [List.foldlM_cons] at h
    rcases Except.bind_eq_error.1 h with hs | ⟨value, -, h⟩
    · rcases Except.bind_eq_error.1 hs with hs | ⟨_, -, hs⟩
      · exact Segment.isFilter_of_eval (he s (List.mem_cons_self ..)) hs
      · cases hs
    · exact ih (fun t ht => he t (List.mem_cons_of_mem _ ht)) value h

/-- A tag that can be read fails only in a filter. -/
theorem isFilter_of_evalTag {raw : String} {expression : Expression}
    (hp : Expression.parse registry raw = .ok expression) {e : TemplateError}
    (h : evalTag registry ctx raw = .error e) : e.IsFilter := by
  rw [evalTag, hp] at h
  rcases Except.bind_eq_error.1 h with h | ⟨_, hok, h⟩
  · cases h
  · cases hok
    rcases Except.bind_eq_error.1 h with h | ⟨_, -, h⟩
    · exact Expression.isFilter_of_eval (Expression.isRegistered_parse hp) h
    · cases h

end Tag

end FormLetter
