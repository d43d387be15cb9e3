import FormLetter.Proofs.Tag.Printing
import FormLetter.Tag.Evaluation

/-!
# Missing values

A built-in filter looks for nothing else once its value is null or the empty text: it makes the
empty text of it, whatever its other arguments are (`TakesPiped.exists_apply`). This is again a
value of that kind, so it goes through a pipeline of any length (`foldlM_eval_of_isBlank`), and a
tag that starts with a variable without a value shows nothing (`evalTag_of_missing`).
-/

namespace FormLetter.Tag

open FormLetter.Json FormLetter.Text

variable {ctx : Context} {name : String} {count : Nat} {v : Value}

/-- A built-in filter may have so many arguments and leave its value to what is piped in. -/
inductive TakesPiped : String → Nat → Prop where
  | upper : TakesPiped "upper" 0
  | lower : TakesPiped "lower" 0
  | date : TakesPiped "date" 1
  | number {count : Nat} : count ≤ 2 → TakesPiped "number" count

theorem plain_of_isBlank (h : v.isBlank = true) : v.plain = "" := by
  rcases Value.isBlank_iff.1 h with rfl | rfl <;> rfl

theorem rewriting_apply_of_isBlank {f : String → String} (hf : f "" = "") (h : v.isBlank = true) :
    (Filter.rewriting name f).apply ctx [] (some v) = .ok "" := by
  show Except.ok (f v.plain) = .ok ""
  rw [plain_of_isBlank h, hf]

theorem date_apply_of_isBlank (format : Value) (h : v.isBlank = true) :
    Filter.date.apply ctx [format] (some v) = .ok "" := by
  simp only [Filter.date, bind, Except.bind, h]
  rfl

theorem number_apply_of_isBlank {arguments : List Value} (hcount : arguments.length ≤ 2)
    (h : v.isBlank = true) : Filter.number.apply ctx arguments (some v) = .ok "" := by
  match arguments, hcount with
  | [], _ => simp only [Filter.number, bind, Except.bind, h]; rfl
  | [_], _ => simp only [Filter.number, bind, Except.bind, h]; rfl
  | [_, _], _ => simp only [Filter.number, bind, Except.bind, h]; rfl

theorem TakesPiped.exists_apply (h : TakesPiped name count) :
    ∃ f, Registry.builtin.get? name = some f ∧
      ∀ ctx arguments v, arguments.length = count → v.isBlank = true →
        f.apply ctx arguments (some v) = .ok "" := by
  cases h with
  | upper =>
    refine ⟨Filter.upper, rfl, fun ctx arguments v hcount hv => ?_⟩
    obtain rfl := List.eq_nil_of_length_eq_zero hcount
    exact rewriting_apply_of_isBlank rfl hv
  | lower =>
    refine ⟨Filter.lower, rfl, fun ctx arguments v hcount hv => ?_⟩
    obtain rfl := List.eq_nil_of_length_eq_zero hcount
    exact rewriting_apply_of_isBlank rfl hv
  | date =>
    refine ⟨Filter.date, rfl, fun ctx arguments v hcount hv => ?_⟩
    obtain ⟨format, rfl⟩ := List.length_eq_one_iff.1 hcount
    exact date_apply_of_isBlank format hv
  | number hle =>
    exact ⟨Filter.number, rfl, fun ctx arguments v hcount hv =>
      number_apply_of_isBlank (hcount ▸ hle) hv⟩

/-- A call of a built-in filter that has no value of its own among its arguments. -/
inductive Segment.IsPiped : Segment → Prop where
  | call {name : String} {arguments : List Argument} :
    TakesPiped name arguments.length → IsPiped (.call name arguments)

theorem Segment.IsPiped.eval {s : Segment} (h : s.IsPiped) (hv : v.isBlank = true) :
    s.eval .builtin ctx (some v) = .ok (.text "") := by
  obtain ⟨hcall⟩ := h
  obtain ⟨f, hget, happly⟩ := hcall.exists_apply
  rw [Segment.eval, hget]
  simp only [happly ctx _ v (List.length_map _) hv]

/-- What is null or empty stays so through any number of calls. -/
theorem foldlM_eval_of_isBlank (ctx : Context) {segments : List Segment}
    (h : ∀ s ∈ segments, s.IsPiped) (hv : v.isBlank = true) :
    ∃ w, w.isBlank = true ∧
      segments.foldlM (fun input s => do return some (← s.eval .builtin ctx input)) (some v) =
        .ok (some w) := by
  induction segments generalizing v with
  | nil => exact ⟨v, hv, rfl⟩
  | cons s segments ih =>
    obtain ⟨hs, hsegments⟩ := List.forall_mem_cons.1 h
    obtain ⟨w, hw, hfold⟩ := ih hsegments (v := .text "") rfl
    refine ⟨w, hw, ?_⟩
    simp only [List.foldlM_cons, hs.eval hv]
    exact hfold

/-! ## Tags -/

/-- The tokens of such a call. A filter may be named in capitals. -/
inductive IsPipedCall : List Token → Prop where
  | call {name : String} {arguments : List Token} :
    TakesPiped (lower name) arguments.length → IsPipedCall (.word name :: arguments)

theorem IsPipedCall.exists_ofTokens {tokens : List Token} (h : IsPipedCall tokens) :
    ∃ head arguments s, tokens = head :: arguments ∧
      Segment.ofTokens .builtin true head arguments = .ok s ∧ s.IsPiped := by
  obtain ⟨hcall⟩ := h
  rename_i name arguments
  obtain ⟨f, hget, -⟩ := hcall.exists_apply
  have hname : (Token.word name).isCall .builtin true arguments = true := by
    rw [Registry.get?_lower] at hget
    simp [Token.isCall, Registry.contains, hget]
  refine ⟨_, _, _, rfl, if_pos hname, .call ?_⟩
  rwa [List.length_map]

theorem exists_segmentsOfTokens {calls : List (List Token)} (h : ∀ call ∈ calls, IsPipedCall call) :
    ∃ segments, segmentsOfTokens .builtin true calls = .ok segments ∧
      ∀ s ∈ segments, s.IsPiped := by
  induction calls with
  | nil => exact ⟨[], rfl, List.forall_mem_nil _⟩
  | cons call calls ih =>
    obtain ⟨hcall, hcalls⟩ := List.forall_mem_cons.1 h
    obtain ⟨head, arguments, s, rfl, hs, hpiped⟩ := hcall.exists_ofTokens
    obtain ⟨segments, hsegments, hall⟩ := ih hcalls
    refine ⟨s :: segments, ?_, List.forall_mem_cons.2 ⟨hpiped, hall⟩⟩
    rw [segmentsOfTokens, hs, hsegments]
    rfl

/-- A variable whose lookup gives nothing, null or the empty text shows as the empty text through
any calls of built-in filters that take their value from the pipe. So it is for every text that is
made of these tokens, and there is one if they are such as can be read. -/
theorem evalTag_of_missing {path : String} {calls : List (List Token)}
    (hmissing : ∀ v ∈ ctx.lookup path, v = .null ∨ v = .text "")
    (hcalls : ∀ call ∈ calls, IsPipedCall call) :
    ((∀ tokens ∈ [.variable path] :: calls, ∀ t ∈ tokens, t.IsProper) →
        Written (printSegments ([.variable path] :: calls)) ([.variable path] :: calls)) ∧
      ∀ raw : String, Written raw.toList ([.variable path] :: calls) →
        evalTag .builtin ctx raw = .ok "" := by
  refine ⟨fun hproper => ⟨List.cons_ne_nil _ _, reads_printSegments hproper⟩, fun raw hraw => ?_⟩
  have hblank : (ctx.resolve path).isBlank = true := by
    rw [Context.resolve]
    cases hlookup : ctx.lookup path with
    | none => rfl
    | some v => exact Value.isBlank_iff.2 (hmissing v hlookup)
  obtain ⟨segments, hsegments, hpiped⟩ := exists_segmentsOfTokens hcalls
  obtain ⟨w, hw, hfold⟩ := foldlM_eval_of_isBlank ctx hpiped hblank
  have hparse : Expression.parse .builtin raw = .ok ⟨.variable path :: segments⟩ := by
    rw [Expression.parse_of_lexemes? (lexemes?_eq_some_iff.2 hraw.2), segmentsOf_lexemesOf hraw.1,
      segmentsOfTokens, hsegments]
    rfl
  have heval : Expression.eval .builtin ctx ⟨.variable path :: segments⟩ = .ok (some w) := hfold
  rw [evalTag, hparse]
  simp only [bind, Except.bind, heval, pure, Except.pure, Option.map_some, Option.getD_some,
    plain_of_isBlank hw]

/-- An empty total, with a profile that there is not, a count that is none and a pattern that is
none. -/
theorem total_evalTag :
    let ctx := Context.ofFields [("client", .object [("total", .text "")])]
    let raw := "$client.total | NUMBER fr x | date *%Q* | upper"
    let calls : List (List Token) :=
      [[.word "NUMBER", .word "fr", .word "x"], [.word "date", .literal "%Q"], [.word "upper"]]
    (∀ v ∈ ctx.lookup "client.total", v = .null ∨ v = .text "") ∧
      (∀ call ∈ calls, IsPipedCall call) ∧
      Written raw.toList ([.variable "client.total"] :: calls) ∧
      evalTag .builtin ctx raw = .ok "" := by
  intro ctx raw calls
  have hlookup : ctx.lookup "client.total" = some (.text "") := by rfl
  have hmissing : ∀ v ∈ ctx.lookup "client.total", v = .null ∨ v = .text "" := by
    rw [hlookup]
    rintro v ⟨⟩
    exact .inr rfl
  have hcalls : ∀ call ∈ calls, IsPipedCall call :=
    List.forall_mem_cons.2 ⟨.call (.number (by decide)), List.forall_mem_cons.2
      ⟨.call .date, List.forall_mem_singleton.2 (.call .upper)⟩⟩
  have hraw : Written raw.toList ([.variable "client.total"] :: calls) := by
    have hlexemes : lexemes? raw.toList =
        some (lexemesOf ([.variable "client.total"] :: calls)) := by decide +kernel
    exact (written_iff hlexemes).2 (by decide +kernel)
  exact ⟨hmissing, hcalls, hraw, (evalTag_of_missing hmissing hcalls).2 raw hraw⟩

end FormLetter.Tag
