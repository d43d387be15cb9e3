import FormLetter.Proofs.Failure
import FormLetter.Proofs.Text.Run
import FormLetter.Tag.Expression
import Mathlib.Data.List.Forall2

/-!
# The grammar of expressions

`Reads` says what lexemes a text is made of, by the rules of the grammar alone: a literal runs to
the first asterisk without a backslash in front of it, and a word as far as it can. A text has one
reading (`lexemes?_eq_some_iff`), or a literal in it does not close (`lexemes?_eq_none_iff`).
`Stands` says what the tokens of a segment mean at their place in the pipeline. Reading an
expression fails for a literal first, then for the first head that takes arguments and is no filter,
and else every segment with tokens in it has its meaning (`Expression.parse_cases`).
-/

namespace FormLetter.Tag

open FormLetter.Text

def Paired (w : List Char) : Prop :=
  ∀ front back, w = front ++ '*' :: back → front.getLast? = some '\\'

/-- What may stand between the asterisks of a literal: the one that closes it is the first without a
backslash in front of it. -/
def IsLiteral (w : List Char) : Prop := Paired w ∧ w.getLast? ≠ some '\\'

/-- A text with an asterisk in the place of every one that has a backslash in front of it. -/
def unpair : List Char → List Char
  | [] => []
  | '\\' :: '*' :: cs => '*' :: unpair cs
  | c :: cs => c :: unpair cs

variable {c : Char} {cs rest w : List Char} {ls : List Lexeme}

theorem paired_nil : Paired [] := by
  intro front back h
  simp at h

theorem not_paired_asterisk (cs : List Char) : ¬Paired ('*' :: cs) := by
  intro h
  have := h [] cs rfl
  simp at this

theorem paired_pair : Paired ('\\' :: '*' :: cs) ↔ Paired cs := by
  constructor
  · intro h front back heq
    have hlast := h ('\\' :: '*' :: front) back (by rw [heq]; rfl)
    cases front with
    | nil => simp at hlast
    | cons c front => simpa using hlast
  · intro h front back heq
    match front, heq with
    | [], heq => simp at heq
    | [_], heq =>
      simp only [List.cons_append, List.nil_append, List.cons.injEq] at heq
      rw [← heq.1]
      rfl
    | c :: d :: front, heq =>
      simp only [List.cons_append, List.cons.injEq] at heq
      have hlast := h front back heq.2.2
      cases front with
      | nil => simp at hlast
      | cons e front => simpa using hlast

theorem paired_cons (hc : c ≠ '*') (hpair : c = '\\' → cs.head? ≠ some '*') :
    Paired (c :: cs) ↔ Paired cs := by
  constructor
  · intro h front back heq
    have hlast := h (c :: front) back (by rw [heq]; rfl)
    cases front with
    | nil =>
      rw [List.getLast?_singleton, Option.some.injEq] at hlast
      exact absurd (by rw [heq]; rfl) (hpair hlast)
    | cons d front => simpa using hlast
  · intro h front back heq
    cases front with
    | nil => exact absurd (List.cons.inj heq).1 hc
    | cons d front =>
      have hlast := h front back (List.cons.inj heq).2
      cases front with
      | nil => simp at hlast
      | cons e front => simpa using hlast

theorem isLiteral_pair : IsLiteral ('\\' :: '*' :: cs) ↔ IsLiteral cs := by
  rw [IsLiteral, IsLiteral, paired_pair]
  cases cs <;> simp

theorem isLiteral_cons (hc : c ≠ '*') (hpair : c = '\\' → cs ≠ [] ∧ cs.head? ≠ some '*') :
    IsLiteral (c :: cs) ↔ IsLiteral cs := by
  rw [IsLiteral, IsLiteral, paired_cons hc fun h => (hpair h).2]
  cases cs with
  | nil => simpa using fun _ h => (hpair h).1 rfl
  | cons d cs => simp

/-- A literal is read up to the asterisk that closes it. -/
theorem readLiteral_append (h : IsLiteral w) (rest : List Char) :
    readLiteral (w ++ '*' :: rest) = some (unpair w, rest) := by
  fun_induction unpair w with
  | case1 => simp [readLiteral]
  | case2 cs ih =>
    rw [List.cons_append, List.cons_append, readLiteral, ih (isLiteral_pair.1 h)]
    rfl
  | case3 c cs hpair ih =>
    have hc : c ≠ '*' := by
      rintro rfl
      exact not_paired_asterisk cs h.1
    have hback : c = '\\' → cs ≠ [] ∧ cs.head? ≠ some '*' := by
      rintro rfl
      refine ⟨?_, fun hhead => ?_⟩
      · rintro rfl
        exact h.2 rfl
      · obtain ⟨ds, rfl⟩ := List.head?_eq_some_iff.1 hhead
        exact hpair ds rfl rfl
    have hrest : ∀ ds, c = '\\' → cs ++ '*' :: rest = '*' :: ds → False := by
      intro ds hc heq
      obtain ⟨hne, hhead⟩ := hback hc
      obtain ⟨d, cs, rfl⟩ := List.exists_cons_of_ne_nil hne
      exact hhead (congrArg some (List.cons.inj heq).1)
    rw [List.cons_append, readLiteral.eq_3 _ _ hrest, if_neg hc, ih ((isLiteral_cons hc hback).1 h)]
    rfl

/-- What is read as a literal is one. -/
theorem exists_of_readLiteral {text : List Char} (h : readLiteral cs = some (text, rest)) :
    ∃ w, IsLiteral w ∧ cs = w ++ '*' :: rest ∧ text = unpair w := by
  fun_induction readLiteral cs generalizing text with
  | case1 => cases h
  | case2 cs ih =>
    obtain ⟨⟨t, r⟩, hr, he⟩ := Option.map_eq_some_iff.1 h
    cases he
    obtain ⟨w, hw, rfl, rfl⟩ := ih hr
    exact ⟨'\\' :: '*' :: w, isLiteral_pair.2 hw, rfl, rfl⟩
  | case3 cs =>
    cases h
    exact ⟨[], ⟨paired_nil, by simp⟩, rfl, rfl⟩
  | case4 c cs hpair hc ih =>
    obtain ⟨⟨t, r⟩, hr, he⟩ := Option.map_eq_some_iff.1 h
    cases he
    obtain ⟨w, hw, rfl, rfl⟩ := ih hr
    have hback : c = '\\' → w ≠ [] ∧ w.head? ≠ some '*' := by
      rintro rfl
      refine ⟨?_, fun hhead => ?_⟩
      · rintro rfl
        exact hpair _ rfl rfl
      · obtain ⟨ds, rfl⟩ := List.head?_eq_some_iff.1 hhead
        exact hpair _ rfl rfl
    refine ⟨c :: w, (isLiteral_cons hc hback).2 hw, rfl, ?_⟩
    rw [unpair]
    rintro ds rfl rfl
    exact (hback rfl).2 rfl

theorem readLiteral_eq_none_iff : readLiteral cs = none ↔ Paired cs := by
  fun_induction readLiteral cs with
  | case1 => exact iff_of_true rfl paired_nil
  | case2 cs ih => rw [Option.map_eq_none_iff, ih, paired_pair]
  | case3 cs => exact iff_of_false (by simp) (not_paired_asterisk cs)
  | case4 c cs hpair hc ih =>
    have hback : c = '\\' → cs.head? ≠ some '*' := fun hc hhead => by
      obtain ⟨ds, rfl⟩ := List.head?_eq_some_iff.1 hhead
      exact hpair _ hc rfl
    rw [Option.map_eq_none_iff, ih, paired_cons hc hback]

/-! ## Lexemes -/

def IsWord (w : List Char) : Prop :=
  w ≠ [] ∧ w.head? ≠ some '*' ∧ ∀ c ∈ w, isWordChar c = true

/-- The lexemes at the front of a text, and the rest of it. -/
inductive Reads : List Char → List Lexeme → List Char → Prop where
  | nil {cs : List Char} : Reads cs [] cs
  | blank {c : Char} {cs rest : List Char} {ls : List Lexeme} :
    isBlank c = true → Reads cs ls rest → Reads (c :: cs) ls rest
  | bar {cs rest : List Char} {ls : List Lexeme} :
    Reads cs ls rest → Reads ('|' :: cs) (.bar :: ls) rest
  | literal {w cs rest : List Char} {ls : List Lexeme} :
    IsLiteral w → Reads cs ls rest →
    Reads ('*' :: (w ++ '*' :: cs)) (.token (.literal (String.ofList (unpair w))) :: ls) rest
  | word {w cs rest : List Char} {ls : List Lexeme} :
    IsWord w → (∀ c ∈ cs.head?, isWordChar c = false) → Reads cs ls rest →
    Reads (w ++ cs) (.token (.ofWord w) :: ls) rest

/-- Some literal of a text does not close. -/
def Unclosed (cs : List Char) : Prop := ∃ ls rest, Reads cs ls ('*' :: rest) ∧ Paired rest

theorem lexemes?_bar (cs : List Char) :
    lexemes? ('|' :: cs) = (lexemes? cs).map (.bar :: ·) := by
  rw [lexemes?, if_pos rfl]

theorem lexemes?_blank (h : isBlank c = true) : lexemes? (c :: cs) = lexemes? cs := by
  have hbar : c ≠ '|' := by rintro rfl; cases h
  have hliteral : c ≠ '*' := by rintro rfl; cases h
  rw [lexemes?, if_neg hbar, if_neg hliteral, if_pos h]

theorem lexemes?_literal (h : IsLiteral w) (cs : List Char) :
    lexemes? ('*' :: (w ++ '*' :: cs)) =
      (lexemes? cs).map (.token (.literal (String.ofList (unpair w))) :: ·) := by
  have hread := readLiteral_append h cs
  rw [lexemes?, if_neg (by decide), if_pos rfl]
  split
  · rename_i h'
    cases hread.symm.trans h'
    rfl
  · rename_i h'
    cases hread.symm.trans h'

theorem lexemes?_unclosed (h : Paired cs) : lexemes? ('*' :: cs) = none := by
  have hread := readLiteral_eq_none_iff.2 h
  rw [lexemes?, if_neg (by decide), if_pos rfl]
  split
  · rename_i h'
    cases hread.symm.trans h'
  · rfl

theorem lexemes?_word (h : IsWord w) (hcs : ∀ c ∈ cs.head?, isWordChar c = false) :
    lexemes? (w ++ cs) = (lexemes? cs).map (.token (.ofWord w) :: ·) := by
  obtain ⟨hne, hhead, hall⟩ := h
  obtain ⟨c, w, rfl⟩ := List.exists_cons_of_ne_nil hne
  obtain ⟨hc, hw⟩ := List.forall_mem_cons.1 hall
  have hbar : c ≠ '|' := by rintro rfl; cases hc
  have hblank : ¬isBlank c = true := fun hb => by simp [isWordChar, hb] at hc
  have hrun : run isWordChar (w ++ cs) = (w, cs) := by
    cases cs with
    | nil => rw [List.append_nil, run_of_all hw]
    | cons d cs => exact run_append_cons hw (hcs d rfl)
  obtain ⟨htake, hdrop⟩ := Prod.mk.inj hrun
  rw [List.cons_append, lexemes?, if_neg hbar, if_neg fun h => hhead (congrArg some h),
    if_neg hblank, htake, hdrop]

theorem Reads.lexemes? (h : Reads cs ls rest) : lexemes? cs = (lexemes? rest).map (ls ++ ·) := by
  induction h with
  | nil => simp
  | blank hc _ ih => rw [lexemes?_blank hc, ih]
  | bar _ ih => rw [lexemes?_bar, ih, Option.map_map]; rfl
  | literal hw _ ih => rw [lexemes?_literal hw, ih, Option.map_map]; rfl
  | word hw hcs _ ih => rw [lexemes?_word hw hcs, ih, Option.map_map]; rfl

theorem reads_or_unclosed_of {cs ds : List Char} (front : List Lexeme)
    (h : ∀ ls rest, Reads cs ls rest → Reads ds (front ++ ls) rest) :
    (∃ ls, Reads cs ls []) ∨ Unclosed cs → (∃ ls, Reads ds ls []) ∨ Unclosed ds := by
  rintro (⟨ls, hls⟩ | ⟨ls, rest, hls, hrest⟩)
  · exact .inl ⟨front ++ ls, h ls [] hls⟩
  · exact .inr ⟨front ++ ls, rest, h ls _ hls, hrest⟩

/-- A text has lexemes, or a literal in it does not close. -/
theorem reads_or_unclosed (cs : List Char) : (∃ ls, Reads cs ls []) ∨ Unclosed cs := by
  fun_induction lexemes? cs with
  | case1 => exact .inl ⟨[], .nil⟩
  | case2 cs ih => exact reads_or_unclosed_of [.bar] (fun _ _ => .bar) ih
  | case3 cs text rest hread _ ih =>
    obtain ⟨w, hw, rfl, rfl⟩ := exists_of_readLiteral hread
    exact reads_or_unclosed_of [_] (fun _ _ => .literal hw) ih
  | case4 cs hread => exact .inr ⟨[], cs, .nil, readLiteral_eq_none_iff.1 hread⟩
  | case5 c cs _ _ hc ih => exact reads_or_unclosed_of [] (fun _ _ => .blank hc) ih
  | case6 c cs hbar hliteral hblank ih =>
    have hc : isWordChar c = true := by simp [isWordChar, hblank, hbar]
    have hall : ∀ d ∈ cs.takeWhile isWordChar, isWordChar d = true :=
      List.all_eq_true.1 List.all_takeWhile
    have hword : IsWord (c :: cs.takeWhile isWordChar) :=
      ⟨List.cons_ne_nil _ _, fun h => hliteral (Option.some.inj h),
        List.forall_mem_cons.2 ⟨hc, hall⟩⟩
    have hrest : ∀ d ∈ (cs.dropWhile isWordChar).head?, isWordChar d = false := by
      intro d hd
      have hhead := List.head?_dropWhile_not isWordChar cs
      rw [Option.mem_def.1 hd] at hhead
      exact hhead
    have hsplit : c :: cs = (c :: cs.takeWhile isWordChar) ++ cs.dropWhile isWordChar := by
      rw [List.cons_append, List.takeWhile_append_dropWhile]
    rw [hsplit]
    exact reads_or_unclosed_of [_] (fun _ _ => .word hword hrest) ih

theorem lexemes?_eq_some_iff : lexemes? cs = some ls ↔ Reads cs ls [] := by
  have hread : ∀ {ls}, Reads cs ls [] → lexemes? cs = some ls := fun h => by
    rw [h.lexemes?, Tag.lexemes?]
    simp
  refine ⟨fun h => ?_, hread⟩
  rcases reads_or_unclosed cs with ⟨ls', h'⟩ | ⟨ls', rest, h', hrest⟩
  · cases h.symm.trans (hread h')
    exact h'
  · rw [h'.lexemes?, lexemes?_unclosed hrest] at h
    cases h

theorem lexemes?_eq_none_iff : lexemes? cs = none ↔ Unclosed cs := by
  constructor
  · intro h
    rcases reads_or_unclosed cs with ⟨ls, hls⟩ | h'
    · cases h.symm.trans (lexemes?_eq_some_iff.2 hls)
    · exact h'
  · rintro ⟨ls, rest, h, hrest⟩
    rw [h.lexemes?, lexemes?_unclosed hrest]
    rfl

/-! ## Segments -/

def lexemesOf (segments : List (List Token)) : List Lexeme :=
  [Lexeme.bar].intercalate (segments.map (·.map Lexeme.token))

/-- A text is made of segments, which may be without tokens. -/
def Written (cs : List Char) (segments : List (List Token)) : Prop :=
  segments ≠ [] ∧ Reads cs (lexemesOf segments) []

theorem segmentsOf_tokens (tokens : List Token) : segmentsOf (tokens.map .token) = [tokens] := by
  induction tokens with
  | nil => rfl
  | cons t tokens ih => rw [List.map_cons, segmentsOf, ih]

theorem segmentsOf_bar (tokens : List Token) (ls : List Lexeme) :
    segmentsOf (tokens.map .token ++ .bar :: ls) = tokens :: segmentsOf ls := by
  induction tokens with
  | nil => rfl
  | cons t tokens ih => rw [List.map_cons, List.cons_append, segmentsOf, ih]

/-- Lexemes are cut at their bars. -/
theorem segmentsOf_lexemesOf {segments : List (List Token)} (h : segments ≠ []) :
    segmentsOf (lexemesOf segments) = segments := by
  induction segments with
  | nil => exact absurd rfl h
  | cons tokens segments ih =>
    cases segments with
    | nil => exact (congrArg segmentsOf List.intercalate_singleton).trans (segmentsOf_tokens tokens)
    | cons other segments =>
      have hcut : lexemesOf (tokens :: other :: segments) =
          tokens.map .token ++ .bar :: lexemesOf (other :: segments) := by
        simp [lexemesOf, List.intercalate_cons_cons]
      rw [hcut, segmentsOf_bar, ih (List.cons_ne_nil _ _)]

theorem segmentsOf_ne_nil (ls : List Lexeme) : segmentsOf ls ≠ [] := by
  cases ls with
  | nil => exact List.cons_ne_nil _ _
  | cons l ls =>
    cases l with
    | bar => exact List.cons_ne_nil _ _
    | token t =>
      rw [segmentsOf]
      split <;> exact List.cons_ne_nil _ _

theorem mem_of_mem_segmentsOf {tokens : List Token} (h : tokens ∈ segmentsOf ls) {t : Token}
    (ht : t ∈ tokens) : Lexeme.token t ∈ ls := by
  induction ls generalizing tokens with
  | nil =>
    rw [segmentsOf, List.mem_singleton] at h
    subst h
    cases ht
  | cons l ls ih =>
    obtain ⟨first, others, hsegments⟩ := List.exists_cons_of_ne_nil (segmentsOf_ne_nil ls)
    cases l with
    | bar =>
      rw [segmentsOf] at h
      rcases List.mem_cons.1 h with rfl | h
      · cases ht
      · exact List.mem_cons_of_mem _ (ih h ht)
    | token u =>
      rw [segmentsOf, hsegments] at h
      rcases List.mem_cons.1 h with rfl | h
      · rcases List.mem_cons.1 ht with rfl | ht
        · exact List.mem_cons_self ..
        · exact List.mem_cons_of_mem _ (ih (hsegments ▸ List.mem_cons_self ..) ht)
      · exact List.mem_cons_of_mem _ (ih (hsegments ▸ List.mem_cons_of_mem _ h) ht)

theorem lexemesOf_segmentsOf (ls : List Lexeme) : lexemesOf (segmentsOf ls) = ls := by
  induction ls with
  | nil => rfl
  | cons l ls ih =>
    obtain ⟨tokens, segments, hsegments⟩ := List.exists_cons_of_ne_nil (segmentsOf_ne_nil ls)
    cases l with
    | bar =>
      rw [segmentsOf, hsegments]
      rw [hsegments] at ih
      simpa [lexemesOf, List.intercalate_cons_cons] using ih
    | token t =>
      rw [segmentsOf, hsegments]
      rw [hsegments] at ih
      cases segments <;> simpa [lexemesOf, List.intercalate_cons_cons] using ih

/-- A text whose literals all close is made of segments in one way. -/
theorem written_iff {segments : List (List Token)} (h : lexemes? cs = some ls) :
    Written cs segments ↔ segments = segmentsOf ls := by
  constructor
  · rintro ⟨hne, hread⟩
    cases h.symm.trans (lexemes?_eq_some_iff.2 hread)
    exact (segmentsOf_lexemesOf hne).symm
  · rintro rfl
    exact ⟨segmentsOf_ne_nil ls, (lexemesOf_segmentsOf ls).symm ▸ lexemes?_eq_some_iff.1 h⟩

theorem not_written {segments : List (List Token)} (h : Unclosed cs) : ¬Written cs segments := by
  rintro ⟨-, hread⟩
  cases (lexemes?_eq_none_iff.2 h).symm.trans (lexemes?_eq_some_iff.2 hread)

variable {registry : Registry}

/-- What the tokens of a segment stand for, given how many segments with tokens come before. -/
inductive Stands (registry : Registry) : Nat → List Token → Segment → Prop where
  | call {place : Nat} {name : String} {arguments : List Token} :
    registry.contains name = true → 0 < place ∨ arguments ≠ [] →
    Stands registry place (.word name :: arguments)
      (.call (Text.lower name) (arguments.map Token.toArgument))
  | literal {place : Nat} {text : String} : Stands registry place [.literal text] (.literal text)
  | «variable» {place : Nat} {path : String} :
    Stands registry place [.variable path] (.variable path)
  | word {place : Nat} {path : String} :
    ¬(registry.contains path = true ∧ 0 < place) →
    Stands registry place [.word path] (.variable path)

def Token.isFilter (registry : Registry) : Token → Bool
  | .word name => registry.contains name
  | _ => false

def isUnknown (registry : Registry) : List Token → Bool
  | head :: _ :: _ => !head.isFilter registry
  | _ => false

/-- What comes of the segments of an expression. -/
inductive Means (registry : Registry) (segments : List (List Token)) :
    Except TemplateError Expression → Prop where
  | unknown {head : Token} {arguments : List Token} :
    segments.find? (isUnknown registry) = some (head :: arguments) →
    Means registry segments (.error (.unknownFilter head.spelling))
  | expression {es : List Segment} :
    segments.find? (isUnknown registry) = none →
    List.Forall₂ (fun tokens e => Stands registry tokens.2 tokens.1 e)
      (segments.filter (!·.isEmpty)).zipIdx es →
    Means registry segments (.ok ⟨es⟩)

/-- A segment is refused, or it has its meaning. -/
theorem Segment.ofTokens_cases (registry : Registry) (place : Nat) (head : Token)
    (arguments : List Token) :
    (isUnknown registry (head :: arguments) = true ∧
      Segment.ofTokens registry (place != 0) head arguments =
        .error (.unknownFilter head.spelling)) ∨
    (isUnknown registry (head :: arguments) = false ∧
      ∃ e, Segment.ofTokens registry (place != 0) head arguments = .ok e ∧
        Stands registry place (head :: arguments) e) := by
  by_cases hcall : head.isCall registry (place != 0) arguments = true
  · cases head with
    | «variable» path => cases hcall
    | literal text => cases hcall
    | word name =>
      have hparts := hcall
      rw [Token.isCall, Bool.and_eq_true, Bool.or_eq_true] at hparts
      obtain ⟨hname, hplace⟩ := hparts
      have hfilter : (Token.word name).isFilter registry = true := hname
      have hknown : isUnknown registry (.word name :: arguments) = false := by
        cases arguments <;> simp [isUnknown, hfilter]
      have hplace' : 0 < place ∨ arguments ≠ [] :=
        hplace.imp (by simp [Nat.pos_iff_ne_zero]) (by simp)
      exact .inr ⟨hknown, _, if_pos hcall, .call hname hplace'⟩
  · rw [Segment.ofTokens, if_neg hcall]
    cases arguments with
    | nil =>
      refine .inr ⟨rfl, _, if_pos rfl, ?_⟩
      cases head with
      | «variable» path => exact .variable
      | literal text => exact .literal
      | word path =>
        refine .word fun ⟨hname, hplace⟩ => hcall ?_
        simp [Token.isCall, hname, Nat.ne_of_gt hplace]
    | cons argument arguments =>
      refine .inl ⟨?_, if_neg Bool.false_ne_true⟩
      cases head with
      | «variable» path => rfl
      | literal text => rfl
      | word name => simpa [isUnknown, Token.isFilter, Token.isCall] using hcall

/-- The segments of an expression mean what each of them stands for. The first of them comes after
so many others with tokens. -/
theorem segmentsOfTokens_cases (registry : Registry) (place : Nat) (segments : List (List Token)) :
    (∃ head arguments, segments.find? (isUnknown registry) = some (head :: arguments) ∧
      segmentsOfTokens registry (place != 0) segments = .error (.unknownFilter head.spelling)) ∨
    (segments.find? (isUnknown registry) = none ∧
      ∃ es, segmentsOfTokens registry (place != 0) segments = .ok es ∧
        List.Forall₂ (fun tokens e => Stands registry tokens.2 tokens.1 e)
          ((segments.filter (!·.isEmpty)).zipIdx place) es) := by
  induction segments generalizing place with
  | nil => exact .inr ⟨rfl, [], rfl, .nil⟩
  | cons tokens segments ih =>
    cases tokens with
    | nil => exact ih place
    | cons head arguments =>
      rw [segmentsOfTokens]
      rcases Segment.ofTokens_cases registry place head arguments with
        ⟨hunknown, hhead⟩ | ⟨hknown, e, hhead, hstands⟩
      · refine .inl ⟨head, arguments, List.find?_cons_of_pos hunknown, ?_⟩
        rw [hhead]
        rfl
      · rw [hhead, List.find?_cons_of_neg (by simp [hknown])]
        rcases ih (place + 1) with ⟨head', arguments', hfind, hrest⟩ | ⟨hfind, es, hrest, hall⟩
        · refine .inl ⟨head', arguments', hfind, ?_⟩
          have hpiped : (place + 1 != 0) = true := by simp
          rw [hpiped] at hrest
          rw [hrest]
          rfl
        · refine .inr ⟨hfind, e :: es, ?_, .cons hstands hall⟩
          have hpiped : (place + 1 != 0) = true := by simp
          rw [hpiped] at hrest
          rw [hrest]
          rfl

theorem segmentsOfTokens_filter (registry : Registry) (piped : Bool)
    (segments : List (List Token)) :
    segmentsOfTokens registry piped (segments.filter (!·.isEmpty)) =
      segmentsOfTokens registry piped segments := by
  induction segments generalizing piped with
  | nil => rfl
  | cons tokens segments ih =>
    cases tokens with
    | nil => exact ih piped
    | cons head arguments =>
      rw [List.filter_cons_of_pos rfl, segmentsOfTokens, segmentsOfTokens, ih]

theorem Expression.parse_of_lexemes? {raw : String} (h : lexemes? raw.toList = some ls) :
    Expression.parse registry raw =
      (segmentsOfTokens registry false (segmentsOf ls)).map Expression.mk := by
  rw [Expression.parse, tokenize?, h, ← segmentsOfTokens_filter, Option.map_some]
  simp only
  cases segmentsOfTokens registry false ((segmentsOf ls).filter (!·.isEmpty)) <;> rfl

theorem exists_reads_of_parse {raw : String} {e : Expression}
    (h : Expression.parse registry raw = .ok e) : ∃ ls, Reads raw.toList ls [] ∧
      segmentsOfTokens registry false (segmentsOf ls) = .ok e.segments := by
  cases hls : lexemes? raw.toList with
  | none =>
    rw [Expression.parse, tokenize?, hls] at h
    cases h
  | some ls =>
    rw [Expression.parse_of_lexemes? hls] at h
    obtain ⟨segments, hsegments, rfl⟩ := Except.map_eq_ok.1 h
    exact ⟨ls, lexemes?_eq_some_iff.1 hls, hsegments⟩

/-- The content of a tag is read by its grammar. If a literal in it does not close, it is made of no
segments, and that is what is wrong with it whatever else is. Else it is made of segments in one
way, and comes to what these mean: the first head that has arguments and is no filter is what is
wrong, or each segment with tokens has its meaning. -/
theorem Expression.parse_cases (registry : Registry) (raw : String) :
    (Expression.parse registry raw = .error (.unterminatedLiteral raw) ↔ Unclosed raw.toList) ∧
      ((Unclosed raw.toList ∧ ∀ segments, ¬Written raw.toList segments) ∨
        ∃ segments, (∀ others, Written raw.toList others ↔ others = segments) ∧
          Means registry segments (Expression.parse registry raw)) := by
  cases h : lexemes? raw.toList with
  | none =>
    have hunclosed := lexemes?_eq_none_iff.1 h
    have hparse : Expression.parse registry raw = .error (.unterminatedLiteral raw) := by
      rw [Expression.parse, tokenize?, h]
      rfl
    exact ⟨iff_of_true hparse hunclosed, .inl ⟨hunclosed, fun _ => not_written hunclosed⟩⟩
  | some ls =>
    have hclosed : ¬Unclosed raw.toList := fun hu => by
      cases h.symm.trans (lexemes?_eq_none_iff.2 hu)
    have hmeans : Means registry (segmentsOf ls) (Expression.parse registry raw) := by
      rw [Expression.parse_of_lexemes? h]
      rcases segmentsOfTokens_cases registry 0 (segmentsOf ls) with
        ⟨head, arguments, hfind, heq⟩ | ⟨hfind, es, heq, hall⟩
      · rw [show false = ((0 : Nat) != 0) from rfl, heq]
        exact .unknown hfind
      · rw [show false = ((0 : Nat) != 0) from rfl, heq]
        exact .expression hfind hall
    refine ⟨iff_of_false (fun hp => ?_) hclosed,
      .inr ⟨segmentsOf ls, fun _ => written_iff h, hmeans⟩⟩
    rw [hp] at hmeans
    cases hmeans

end FormLetter.Tag
