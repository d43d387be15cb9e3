import FormLetter.Proofs.Tag.Grammar
import FormLetter.Proofs.Text.Case

/-!
# Printing expressions

An expression is printed as the content of a tag: segments with bars between them, tokens with a
space between them, and every asterisk of a literal with a backslash in front of it. No literal ends
in a backslash, so an argument that does was a word and is printed as one. What is read is
`IsProper` token by token, proper tokens are read as they are printed, and so reading what is
printed gives the expression back (`Expression.parse_print`).
-/

namespace FormLetter.Tag

open FormLetter.Text

variable {registry : Registry} {cs rest : List Char} {ls : List Lexeme}

/-- A text with a backslash in front of every asterisk. -/
def pair : List Char → List Char
  | [] => []
  | c :: cs => if c = '*' then '\\' :: '*' :: pair cs else c :: pair cs

def EndsInBackslash (text : String) : Prop := text.toList.getLast? = some '\\'

instance : DecidablePred EndsInBackslash := fun text =>
  inferInstanceAs (Decidable (text.toList.getLast? = some '\\'))

theorem head?_pair (cs : List Char) : (pair cs).head? ≠ some '*' := by
  cases cs with
  | nil => simp [pair]
  | cons c cs =>
    rw [pair]
    split
    · simp
    · rename_i hc
      simpa using hc

theorem pair_ne_nil {c : Char} : pair (c :: cs) ≠ [] := by
  rw [pair]
  split <;> exact List.cons_ne_nil _ _

theorem unpair_pair (cs : List Char) : unpair (pair cs) = cs := by
  induction cs with
  | nil => rfl
  | cons c cs ih =>
    rw [pair]
    split
    · rename_i hc
      rw [unpair, ih, hc]
    · rw [unpair, ih]
      intro ds _ hds
      exact head?_pair cs (by rw [hds]; rfl)

theorem isLiteral_of_pair (h : cs.getLast? ≠ some '\\') : IsLiteral (pair cs) := by
  induction cs with
  | nil => exact ⟨paired_nil, h⟩
  | cons c cs ih =>
    have hcs : cs.getLast? ≠ some '\\' := by
      cases cs with
      | nil => simp
      | cons d cs => simpa using h
    rw [pair]
    split
    · exact isLiteral_pair.2 (ih hcs)
    · rename_i hc
      refine (isLiteral_cons hc fun hback => ⟨?_, head?_pair cs⟩).2 (ih hcs)
      cases cs with
      | nil => exact absurd (by rw [hback]; rfl) h
      | cons d cs => exact pair_ne_nil

theorem unpair_ne_nil (c : Char) (cs : List Char) : unpair (c :: cs) ≠ [] := by
  rw [unpair.eq_def]
  split <;> simp_all

/-- What a literal stands for does not end in a backslash: the asterisk after it would not close
it. -/
theorem getLast?_unpair {w : List Char} (h : IsLiteral w) : (unpair w).getLast? ≠ some '\\' := by
  fun_induction unpair w with
  | case1 => simp
  | case2 cs ih =>
    cases cs with
    | nil => simp [unpair]
    | cons d cs =>
      obtain ⟨e, es, hes⟩ := List.exists_cons_of_ne_nil (unpair_ne_nil d cs)
      have hrest := ih (isLiteral_pair.1 h)
      rw [hes] at hrest ⊢
      rwa [List.getLast?_cons_cons]
  | case3 c cs hpair ih =>
    have hc : c ≠ '*' := by
      rintro rfl
      exact not_paired_asterisk cs h.1
    cases cs with
    | nil =>
      rw [unpair]
      exact h.2
    | cons d cs =>
      obtain ⟨e, es, hes⟩ := List.exists_cons_of_ne_nil (unpair_ne_nil d cs)
      have hback : c = '\\' → d :: cs ≠ [] ∧ (d :: cs).head? ≠ some '*' := by
        rintro rfl
        refine ⟨List.cons_ne_nil _ _, fun hd => ?_⟩
        cases hd
        exact hpair cs rfl rfl
      have hrest := ih ((isLiteral_cons hc hback).1 h)
      rw [hes] at hrest ⊢
      rwa [List.getLast?_cons_cons]

/-! ## Tokens -/

/-- A token as it is written. -/
def Token.print : Token → List Char
  | .variable path => '$' :: path.toList
  | .literal text => '*' :: (pair text.toList ++ ['*'])
  | .word text => text.toList

/-- What a token that is read is like. -/
def Token.IsProper : Token → Prop
  | .variable path => ∀ c ∈ path.toList, isWordChar c = true
  | .literal text => ¬EndsInBackslash text
  | .word text => IsWord text.toList ∧ text.toList.head? ≠ some '$'

theorem Token.isProper_ofWord {w : List Char} (h : IsWord w) : (Token.ofWord w).IsProper := by
  obtain ⟨c, cs, rfl⟩ := List.exists_cons_of_ne_nil h.1
  by_cases hc : c = '$'
  · subst hc
    intro d hd
    rw [String.toList_ofList] at hd
    exact h.2.2 d (List.mem_cons_of_mem _ hd)
  · have hword : Token.ofWord (c :: cs) = .word (String.ofList (c :: cs)) := by
      rw [ofWord]
      rintro path ⟨⟩
      exact hc rfl
    rw [hword, IsProper, String.toList_ofList]
    exact ⟨h, by simpa using hc⟩

theorem Reads.isProper (h : Reads cs ls rest) {t : Token} (ht : .token t ∈ ls) : t.IsProper := by
  induction h with
  | nil => cases ht
  | blank _ _ ih => exact ih ht
  | bar _ ih => exact ih ((List.mem_cons.1 ht).resolve_left Lexeme.noConfusion)
  | literal hw _ ih =>
    rcases List.mem_cons.1 ht with heq | ht
    · cases heq
      rw [Token.IsProper, EndsInBackslash, String.toList_ofList]
      exact getLast?_unpair hw
    · exact ih ht
  | word hw _ _ ih =>
    rcases List.mem_cons.1 ht with heq | ht
    · cases heq
      exact Token.isProper_ofWord hw
    · exact ih ht

/-- A proper token that is printed is read, up to white space, a bar or the end. -/
theorem Token.IsProper.reads {t : Token} (ht : t.IsProper)
    (hcs : ∀ c ∈ cs.head?, isWordChar c = false) (h : Reads cs ls rest) :
    Reads (t.print ++ cs) (.token t :: ls) rest := by
  cases t with
  | «variable» path =>
    have hword : IsWord ('$' :: path.toList) :=
      ⟨List.cons_ne_nil _ _, by simp, List.forall_mem_cons.2 ⟨rfl, ht⟩⟩
    have hread := Reads.word hword hcs h
    rwa [ofWord, String.ofList_toList] at hread
  | literal text =>
    have hread := Reads.literal (isLiteral_of_pair ht) h
    rw [unpair_pair, String.ofList_toList] at hread
    rwa [print, List.cons_append, List.append_assoc]
  | word text =>
    have hread := Reads.word ht.1 hcs h
    have hword : Token.ofWord text.toList = .word text := by
      obtain ⟨c, cs, heq⟩ := List.exists_cons_of_ne_nil ht.1.1
      have hdollar := ht.2
      rw [heq] at hdollar
      have hofList : String.ofList (c :: cs) = text := by rw [← heq, String.ofList_toList]
      rw [heq, ofWord, hofList]
      rintro path ⟨⟩
      exact hdollar rfl
    rwa [hword] at hread

def printTokens (tokens : List Token) : List Char := [' '].intercalate (tokens.map Token.print)

theorem reads_printTokens {tokens : List Token} (ht : ∀ t ∈ tokens, t.IsProper)
    (hcs : ∀ c ∈ cs.head?, isWordChar c = false) (h : Reads cs ls rest) :
    Reads (printTokens tokens ++ cs) (tokens.map .token ++ ls) rest := by
  induction tokens with
  | nil => exact h
  | cons t tokens ih =>
    obtain ⟨hfirst, hothers⟩ := List.forall_mem_cons.1 ht
    have hrest := ih hothers
    cases tokens with
    | nil =>
      have hread := hfirst.reads hcs h
      simpa [printTokens] using hread
    | cons other tokens =>
      have hblank : Reads (' ' :: (printTokens (other :: tokens) ++ cs))
          ((other :: tokens).map .token ++ ls) rest := .blank rfl hrest
      have hread := hfirst.reads (fun c hc => by cases hc; rfl) hblank
      simpa [printTokens, List.intercalate_cons_cons] using hread

/-- Segments with a bar between them. -/
def printSegments (segments : List (List Token)) : List Char :=
  ['|'].intercalate (segments.map printTokens)

theorem reads_printSegments {segments : List (List Token)}
    (h : ∀ tokens ∈ segments, ∀ t ∈ tokens, t.IsProper) :
    Reads (printSegments segments) (lexemesOf segments) [] := by
  induction segments with
  | nil => exact .nil
  | cons tokens segments ih =>
    obtain ⟨hfirst, hothers⟩ := List.forall_mem_cons.1 h
    have hrest := ih hothers
    cases segments with
    | nil =>
      have hend : ∀ c ∈ ([] : List Char).head?, isWordChar c = false := by simp
      have hread := reads_printTokens hfirst hend .nil
      simpa [printSegments, lexemesOf] using hread
    | cons other segments =>
      have hread := reads_printTokens hfirst (fun c hc => by cases hc; rfl) (.bar hrest)
      simpa [printSegments, lexemesOf, List.intercalate_cons_cons] using hread

/-! ## Expressions -/

/-- The token of an argument: a literal that no asterisks can hold is a word. -/
def Argument.toToken : Argument → Token
  | .variable path => .variable path
  | .literal text => if EndsInBackslash text then .word text else .literal text

def Segment.tokens : Segment → List Token
  | .variable path => [.variable path]
  | .literal text => [.literal text]
  | .call name arguments => .word name :: arguments.map Argument.toToken

/-- The content of a tag that stands for an expression. -/
def Expression.print (e : Expression) : String :=
  String.ofList (printSegments (e.segments.map Segment.tokens))

theorem Argument.toArgument_toToken (a : Argument) : a.toToken.toArgument = a := by
  cases a with
  | «variable» path => rfl
  | literal text =>
    rw [toToken]
    split <;> rfl

theorem Token.isProper_toToken {t : Token} (h : t.IsProper) : t.toArgument.toToken.IsProper := by
  cases t with
  | «variable» path => exact h
  | literal text =>
    rw [toArgument, Argument.toToken, if_neg h]
    exact h
  | word text =>
    rw [toArgument, Argument.toToken]
    split
    · exact h
    · rename_i hback
      exact hback

/-- White space, and what ends a word or starts another token, as runs. -/
def markRuns : List CaseRun :=
  [⟨0x09, 0x0D, 1, 0⟩, ⟨0x20, 0x20, 1, 0⟩, ⟨0x24, 0x24, 1, 0⟩, ⟨0x2A, 0x2A, 1, 0⟩,
    ⟨0x7C, 0x7C, 1, 0⟩, ⟨0x85, 0x85, 1, 0⟩, ⟨0xA0, 0xA0, 1, 0⟩, ⟨0x1680, 0x1680, 1, 0⟩,
    ⟨0x2000, 0x200A, 1, 0⟩, ⟨0x2028, 0x2029, 1, 0⟩, ⟨0x202F, 0x202F, 1, 0⟩, ⟨0x205F, 0x205F, 1, 0⟩,
    ⟨0x3000, 0x3000, 1, 0⟩]

theorem isUnreached_markRuns : isUnreached markRuns = true := by
  decide +kernel

theorem isWordChar_of_covers {c : Char} (h : ∀ r ∈ markRuns, r.covers c.toNat = false) :
    isWordChar c = true := by
  simp only [markRuns, List.forall_mem_cons, CaseRun.covers, Nat.mod_one, beq_self_eq_true,
    Bool.and_true, decide_eq_false_iff_not] at h
  have hbar : c ≠ '|' := by
    rintro rfl
    exact absurd h (by decide)
  simp only [isWordChar, isBlank, Bool.and_eq_true, Bool.not_eq_true', Bool.or_eq_false_iff,
    Bool.and_eq_false_iff, decide_eq_false_iff_not, beq_eq_false_iff_ne, bne_iff_ne]
  exact ⟨by omega, hbar⟩

theorem Token.isProper_lower {name : String} (h : (Token.word name).IsProper) :
    (Token.word (lower name)).IsProper := by
  obtain ⟨⟨hne, hliteral, hall⟩, hdollar⟩ := h
  have hhead : ∀ c, (∃ r ∈ markRuns, r.covers c.toNat = true) → name.toList.head? ≠ some c →
      (lower name).toList.head? ≠ some c := by
    rintro c ⟨r, hr, hcovers⟩ hc hlower
    rcases head?_lower isUnreached_markRuns hlower with heq | hnone
    · exact hc heq
    · rw [hnone r hr] at hcovers
      cases hcovers
  refine ⟨⟨toList_lower_ne_nil hne, hhead '*' (by decide) hliteral, fun c hc => ?_⟩,
    hhead '$' (by decide) hdollar⟩
  rcases mem_lower isUnreached_markRuns hc with hmem | hnone
  · exact hall c hmem
  · exact isWordChar_of_covers hnone

/-- A segment that is read from proper tokens has proper tokens, of which it is read again. -/
theorem Segment.ofTokens_tokens {piped : Bool} {head : Token} {arguments : List Token} {s : Segment}
    (h : Segment.ofTokens registry piped head arguments = .ok s)
    (hproper : ∀ t ∈ head :: arguments, t.IsProper) :
    (∀ t ∈ s.tokens, t.IsProper) ∧ ∃ head' arguments', s.tokens = head' :: arguments' ∧
      Segment.ofTokens registry piped head' arguments' = .ok s := by
  obtain ⟨hhead, harguments⟩ := List.forall_mem_cons.1 hproper
  rw [ofTokens] at h
  split at h
  · rename_i hcall
    cases h
    cases head with
    | «variable» path => cases hcall
    | literal text => cases hcall
    | word name =>
      refine ⟨List.forall_mem_cons.2 ⟨Token.isProper_lower hhead, ?_⟩, _, _, rfl, ?_⟩
      · rw [List.map_map]
        refine List.forall_mem_map.2 fun t ht => Token.isProper_toToken (harguments t ht)
      · have hagain : (Token.word (lower name)).isCall registry piped
            ((arguments.map Token.toArgument).map Argument.toToken) = true := by
          rw [Token.isCall, Registry.contains] at hcall ⊢
          rw [Registry.get?_lower]
          simpa using hcall
        have hsame : (((arguments.map Token.toArgument).map Argument.toToken).map
            Token.toArgument) = arguments.map Token.toArgument := by
          simp [Argument.toArgument_toToken]
        rw [ofTokens, Token.name, if_pos hagain, Token.name, lower_lower, hsame]
  · split at h
    · rename_i hcall hempty
      cases h
      cases head with
      | «variable» path =>
        exact ⟨List.forall_mem_singleton.2 hhead, _, _, rfl, rfl⟩
      | literal text =>
        exact ⟨List.forall_mem_singleton.2 hhead, _, _, rfl, rfl⟩
      | word path =>
        exact ⟨List.forall_mem_singleton.2 hhead.1.2.2, _, _, rfl, rfl⟩
    · cases h

/-- So have all segments that are read from proper tokens. -/
theorem segmentsOfTokens_tokens {piped : Bool} {tokens : List (List Token)}
    {segments : List Segment} (h : segmentsOfTokens registry piped tokens = .ok segments)
    (hproper : ∀ ts ∈ tokens, ∀ t ∈ ts, t.IsProper) :
    (∀ ts ∈ segments.map Segment.tokens, ∀ t ∈ ts, t.IsProper) ∧
      segmentsOfTokens registry piped (segments.map Segment.tokens) = .ok segments := by
  induction tokens generalizing piped segments with
  | nil =>
    cases h
    exact ⟨List.forall_mem_nil _, rfl⟩
  | cons first tokens ih =>
    obtain ⟨hfirst, hothers⟩ := List.forall_mem_cons.1 hproper
    cases first with
    | nil => exact ih h hothers
    | cons head arguments =>
      rw [segmentsOfTokens] at h
      obtain ⟨s, hs, h⟩ := Except.bind_eq_ok.1 h
      obtain ⟨others, hrest, h⟩ := Except.bind_eq_ok.1 h
      cases h
      obtain ⟨hproper', head', arguments', htokens, hs'⟩ := Segment.ofTokens_tokens hs hfirst
      obtain ⟨hothers', hrest'⟩ := ih hrest hothers
      refine ⟨List.forall_mem_cons.2 ⟨hproper', hothers'⟩, ?_⟩
      rw [List.map_cons, htokens, segmentsOfTokens, hs', hrest']
      rfl

/-- What is read has proper tokens, and comes to the same by them. -/
theorem tokens_of_parse {raw : String} {e : Expression}
    (h : Expression.parse registry raw = .ok e) :
    (∀ ts ∈ e.segments.map Segment.tokens, ∀ t ∈ ts, t.IsProper) ∧
      segmentsOfTokens registry false (e.segments.map Segment.tokens) = .ok e.segments := by
  obtain ⟨ls, hread, hsegments⟩ := exists_reads_of_parse h
  exact segmentsOfTokens_tokens hsegments fun ts hts t ht =>
    hread.isProper (mem_of_mem_segmentsOf hts ht)

/-- An expression whose tokens are proper and read as its segments is read as it is printed. -/
theorem parse_print_of_isProper {e : Expression}
    (hproper : ∀ ts ∈ e.segments.map Segment.tokens, ∀ t ∈ ts, t.IsProper)
    (h : segmentsOfTokens registry false (e.segments.map Segment.tokens) = .ok e.segments) :
    Expression.parse registry e.print = .ok e := by
  have hread := reads_printSegments hproper
  rw [← String.toList_ofList (l := printSegments _)] at hread
  rw [Expression.print, Expression.parse_of_lexemes? (lexemes?_eq_some_iff.2 hread)]
  cases hsegments : e.segments with
  | nil =>
    obtain ⟨segments⟩ := e
    cases hsegments
    rfl
  | cons s segments =>
    have hne : (s :: segments).map Segment.tokens ≠ [] := List.cons_ne_nil _ _
    rw [hsegments] at h
    rw [segmentsOf_lexemesOf hne, h, ← hsegments]
    rfl

/-- What is read is read again after it is printed. A text is a literal of some tag just if it does
not end in a backslash, and just then it is a segment of some expression. -/
theorem Expression.parse_print (registry : Registry) :
    (∀ raw e, Expression.parse registry raw = .ok e →
        Expression.parse registry e.print = .ok e) ∧
      (∀ text, (∃ raw ls, lexemes? raw = some ls ∧ .token (.literal text) ∈ ls) ↔
        ¬EndsInBackslash text) ∧
      ∀ text, (∃ raw e, Expression.parse registry raw = .ok e ∧ .literal text ∈ e.segments) ↔
        ¬EndsInBackslash text := by
  refine ⟨fun raw e h => ?_, fun text => ⟨?_, fun h => ?_⟩, fun text => ⟨?_, fun h => ?_⟩⟩
  · obtain ⟨hproper, hagain⟩ := tokens_of_parse h
    exact parse_print_of_isProper hproper hagain
  · rintro ⟨raw, ls, hls, hmem⟩
    exact (lexemes?_eq_some_iff.1 hls).isProper hmem
  · have hend : ∀ c ∈ ([] : List Char).head?, isWordChar c = false := by simp
    have hread := Token.IsProper.reads (t := .literal text) h hend .nil
    exact ⟨_, _, lexemes?_eq_some_iff.2 hread, List.mem_singleton_self _⟩
  · rintro ⟨raw, e, hparse, hmem⟩
    exact (tokens_of_parse hparse).1 _ (List.mem_map_of_mem hmem) _ (List.mem_singleton_self _)
  · have hproper : ∀ ts ∈ [Segment.literal text].map Segment.tokens, ∀ t ∈ ts, t.IsProper :=
      List.forall_mem_singleton.2 (List.forall_mem_singleton.2 h)
    exact ⟨_, _, parse_print_of_isProper (e := ⟨[.literal text]⟩) hproper rfl,
      List.mem_singleton_self _⟩

/-- A filter in capitals, and arguments of all kinds: a word, one that ends in a backslash and a
literal with an asterisk. -/
theorem total_parse_print :
    let e : Expression := ⟨[.variable "total",
      .call "number" [.literal "eu", .literal "2\\", .literal "a*b", .variable "x"]]⟩
    Expression.parse .builtin " total || NUMBER eu 2\\ *a\\*b* $x" = .ok e ∧
      e.print = "$total|number *eu* 2\\ *a\\*b* $x" ∧
      Expression.parse .builtin "$total|number *eu* 2\\ *a\\*b* $x" = .ok e := by
  intro e
  have hparse : Expression.parse .builtin " total || NUMBER eu 2\\ *a\\*b* $x" = .ok e := by
    decide +kernel
  have hprint : e.print = "$total|number *eu* 2\\ *a\\*b* $x" := by
    decide +kernel
  exact ⟨hparse, hprint, hprint ▸ (Expression.parse_print .builtin).1 _ e hparse⟩

end FormLetter.Tag
