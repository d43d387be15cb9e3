import FormLetter.Proofs.Tag.Rendering

/-!
# Simple tags

A tag that uses no filters but `upper` and `lower` has a value in every context. So whether a text
of such tags can be rendered, and what is wrong if not, is a matter of its syntax: `render_unit`.
-/

namespace FormLetter.Tag

open FormLetter.Json FormLetter.Text

/-- No filter is called but `upper` or `lower`. -/
def Segment.IsSimple : Segment → Prop
  | .call name _ => name = "upper" ∨ name = "lower"
  | _ => True

def Expression.IsSimple (e : Expression) : Prop := ∀ s ∈ e.segments, s.IsSimple

/-- The tags of the text that can be parsed are simple. -/
def IsSimple (text : String) : Prop :=
  ∀ raw ∈ tagPattern.all text.toList, ∀ e,
    Expression.parse .builtin (String.ofList raw) = .ok e → e.IsSimple

instance : DecidablePred Segment.IsSimple
  | .call name _ => inferInstanceAs (Decidable (name = "upper" ∨ name = "lower"))
  | .variable _ => isTrue trivial
  | .literal _ => isTrue trivial

instance : DecidablePred Expression.IsSimple := fun e =>
  inferInstanceAs (Decidable (∀ s ∈ e.segments, s.IsSimple))

instance : DecidablePred IsSimple := fun text =>
  decidable_of_iff
    (∀ raw ∈ tagPattern.all text.toList,
      (Expression.parse .builtin (String.ofList raw)).toOption.all fun e => decide e.IsSimple) <| by
    refine forall_congr' fun raw => forall_congr' fun _ => ?_
    cases Expression.parse .builtin (String.ofList raw) with
    | error _ =>
      constructor
      · intro _ e h
        cases h
      · intro _
        rfl
    | ok e => simp [Except.toOption]

theorem Segment.eval_of_isSimple {s : Segment} (h : s.IsSimple) (ctx : Context)
    (input : Option Value) : ∃ v, s.eval .builtin ctx input = .ok v := by
  cases s with
  | «variable» path => exact ⟨_, rfl⟩
  | literal text => exact ⟨_, rfl⟩
  | call name arguments =>
    have hupper : Registry.builtin.get? "upper" = some Filter.upper := rfl
    have hlower : Registry.builtin.get? "lower" = some Filter.lower := rfl
    rcases h with rfl | rfl
    · rw [Segment.eval, hupper]
      exact ⟨_, rfl⟩
    · rw [Segment.eval, hlower]
      exact ⟨_, rfl⟩

theorem Expression.eval_of_isSimple {e : Expression} (h : e.IsSimple) (ctx : Context) :
    ∃ v, e.eval .builtin ctx = .ok v := by
  obtain ⟨segments⟩ := e
  rw [Expression.eval]
  generalize (none : Option Value) = input
  induction segments generalizing input with
  | nil => exact ⟨input, rfl⟩
  | cons s segments ih =>
    obtain ⟨v, hv⟩ := Segment.eval_of_isSimple (h s (List.mem_cons_self ..)) ctx input
    obtain ⟨w, hw⟩ := ih (fun t ht => h t (List.mem_cons_of_mem _ ht)) (some v)
    refine ⟨w, ?_⟩
    simp only [List.foldlM_cons, hv]
    exact hw

/-- A simple tag fails only if it cannot be parsed. -/
theorem evalTag_unit {raw : String}
    (h : ∀ e, Expression.parse .builtin raw = .ok e → e.IsSimple) (ctx : Context) :
    (evalTag .builtin ctx raw).map (fun _ => ()) =
      (Expression.parse .builtin raw).map fun _ => () := by
  rw [evalTag]
  cases hp : Expression.parse .builtin raw with
  | error e => rfl
  | ok e =>
    obtain ⟨v, hv⟩ := Expression.eval_of_isSimple (h e hp) ctx
    simp only [bind, Except.bind, hv]
    rfl

/-- A text of simple tags fails with the error of the first that cannot be parsed. -/
theorem render_unit {text : String} (h : IsSimple text) (ctx : Context) :
    (render .builtin ctx text).map (fun _ => ()) =
      ((tagPattern.all text.toList).mapM fun raw =>
        Expression.parse .builtin (String.ofList raw)).map fun _ => () := by
  rw [render_eq, Pattern.all, ← mapM_unit (f := renderPiece .builtin ctx)]
  · cases (tagPattern.split text.toList).1.mapM (renderPiece .builtin ctx) <;> rfl
  · rintro ⟨before, content⟩ hp
    have hc := evalTag_unit (h content (List.mem_map_of_mem hp)) ctx
    simp only [renderPiece, ← hc]
    cases evalTag .builtin ctx (String.ofList content) <;> rfl

end FormLetter.Tag
