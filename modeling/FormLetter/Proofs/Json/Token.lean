import FormLetter.Json.Syntax
import FormLetter.Json.Writer
import FormLetter.Proofs.Number.Decimal
import FormLetter.Proofs.Text.Run

/-!
# Texts of tokens

The tokens of a piece of syntax drive the machine from waiting for a value to having it
(`Syntax.run_tokens`), so a text that is these tokens (`Lexes`) is read as that piece
(`Lexes.parse?`). What is written of a string or of an integer is one token (`Lexes.quote`,
`Lexes.integer`); that of an integer ends only where no digit, point or exponent follows.
-/

namespace FormLetter.Json

open FormLetter.Number FormLetter.Text

mutual

def Syntax.tokens : Syntax → List Token
  | .array items => .openArray :: (itemTokens items ++ [.closeArray])
  | .object fields => .openObject :: (fieldTokens fields ++ [.closeObject])
  | s => [.atom s]

def itemTokens : List Syntax → List Token
  | [] => []
  | [s] => s.tokens
  | s :: rest => s.tokens ++ .comma :: itemTokens rest

def fieldTokens : List (List StringPart × Syntax) → List Token
  | [] => []
  | [(name, s)] => .atom (.string name) :: .colon :: s.tokens
  | (name, s) :: rest =>
    .atom (.string name) :: .colon :: (s.tokens ++ .comma :: fieldTokens rest)

end

/-- Where the machine is after these tokens. -/
def State.run (s : State) (ts : List Token) : Option State := ts.foldlM State.step s

theorem State.run_append {s s' : State} {ts : List Token} (h : s.run ts = some s')
    (us : List Token) : s.run (ts ++ us) = s'.run us := by
  rw [run, List.foldlM_append]
  rw [run] at h
  rw [h]
  rfl

mutual

/-- The tokens of a piece of syntax bring the machine past it, whatever is open around it. -/
theorem Syntax.run_tokens (stack : List Frame) (first : Bool) : ∀ s : Syntax,
    (State.value stack first).run s.tokens = some (.after stack s)
  | .null | .bool _ | .number _ | .string _ => rfl
  | .array [] => rfl
  | .array (s :: rest) => run_itemTokens stack [] true (s :: rest) (List.cons_ne_nil _ _)
  | .object [] => rfl
  | .object (f :: rest) => run_fieldTokens stack [] true (f :: rest) (List.cons_ne_nil _ _)

theorem run_itemTokens (stack : List Frame) (done : List Syntax) (first : Bool) :
    ∀ items : List Syntax, items ≠ [] →
      (State.value (.array done :: stack) first).run (itemTokens items ++ [.closeArray]) =
        some (.after stack (.array (done.reverse ++ items)))
  | [], h => absurd rfl h
  | [s], _ => by
    rw [itemTokens, State.run_append (s.run_tokens _ first), ← List.reverse_cons]
    rfl
  | s :: s' :: rest, _ => by
    have ih := run_itemTokens stack (s :: done) false (s' :: rest) (List.cons_ne_nil _ _)
    rw [List.reverse_cons, List.append_assoc] at ih
    rw [itemTokens, List.append_assoc, State.run_append (s.run_tokens _ first)]
    · exact ih
    · exact fun h => nomatch h

theorem run_fieldTokens (stack : List Frame) (done : List (List StringPart × Syntax))
    (first : Bool) : ∀ fields : List (List StringPart × Syntax), fields ≠ [] →
      (State.field stack done first).run (fieldTokens fields ++ [.closeObject]) =
        some (.after stack (.object (done.reverse ++ fields)))
  | [], h => absurd rfl h
  | [(name, s)], _ => by
    change (State.value (.object done name :: stack) false).run (s.tokens ++ [.closeObject]) = _
    rw [State.run_append (s.run_tokens _ false), ← List.reverse_cons]
    rfl
  | (name, s) :: f :: rest, _ => by
    have ih := run_fieldTokens stack ((name, s) :: done) false (f :: rest) (List.cons_ne_nil _ _)
    rw [List.reverse_cons, List.append_assoc] at ih
    change (State.value (.object done name :: stack) false).run
      ((s.tokens ++ .comma :: fieldTokens (f :: rest)) ++ [.closeObject]) = _
    rw [List.append_assoc, State.run_append (s.run_tokens _ false)]
    exact ih

end

/-! ## Texts -/

/-- The text is these tokens, with white space between and around them. -/
inductive Lexes : List Char → List Token → Prop
  | nil : Lexes [] []
  | layout {c : Char} {cs : List Char} {ts : List Token} (hc : isLayout c = true)
      (h : Lexes cs ts) : Lexes (c :: cs) ts
  | token {c : Char} (cs : List Char) {rest : List Char} {t : Token} {ts : List Token}
      (hc : isLayout c = false) (ht : readToken (c :: (cs ++ rest)) = some (t, rest))
      (h : Lexes rest ts) : Lexes (c :: (cs ++ rest)) (t :: ts)

variable {cs rest : List Char} {ts : List Token}

theorem tokensWithin_of_lexes (h : Lexes cs ts) :
    ∀ {fuel : Nat}, cs.length < fuel → tokensWithin fuel cs = some ts := by
  induction h with
  | nil =>
    intro fuel hfuel
    obtain ⟨fuel, rfl⟩ := Nat.exists_eq_succ_of_ne_zero (Nat.ne_of_gt hfuel)
    rfl
  | layout hc h ih =>
    intro fuel hfuel
    obtain ⟨fuel, rfl⟩ := Nat.exists_eq_succ_of_ne_zero (Nat.ne_zero_of_lt hfuel)
    rw [tokensWithin, List.dropWhile_cons_of_pos hc, ← tokensWithin]
    exact ih (Nat.lt_of_succ_lt hfuel)
  | @token c cs rest t ts hc ht h ih =>
    intro fuel hfuel
    obtain ⟨fuel, rfl⟩ := Nat.exists_eq_succ_of_ne_zero (Nat.ne_zero_of_lt hfuel)
    have hrest : rest.length < fuel := by
      simp only [List.length_cons, List.length_append] at hfuel
      omega
    rw [tokensWithin, List.dropWhile_cons_of_neg (by rw [hc]; decide)]
    simp only [ht, Option.bind_eq_bind, Option.bind_some, ih hrest]

theorem Lexes.tokens? (h : Lexes cs ts) : tokens? cs = some ts :=
  tokensWithin_of_lexes h (Nat.lt_succ_self _)

/-- A text with the tokens of a piece of syntax is that piece. -/
theorem Lexes.parse? {s : Syntax} (h : Lexes cs s.tokens) : Syntax.parse? cs = some s := by
  have hrun := s.run_tokens [] false
  rw [State.run] at hrun
  simp only [Syntax.parse?, h.tokens?, Option.bind_eq_bind, Option.bind_some, hrun]

theorem Lexes.mark {c : Char} {t : Token} (h : Lexes rest ts) (hc : isLayout c = false := by rfl)
    (ht : readToken (c :: rest) = some (t, rest) := by rfl) : Lexes (c :: rest) (t :: ts) :=
  .token [] hc ht h

theorem lexes_append_of_layout {layout : List Char} (hlayout : ∀ c ∈ layout, isLayout c = true)
    (h : Lexes rest ts) : Lexes (layout ++ rest) ts := by
  induction layout with
  | nil => exact h
  | cons c layout ih =>
    exact .layout (hlayout c List.mem_cons_self)
      (ih fun d hd => hlayout d (List.mem_cons_of_mem c hd))

theorem lexes_layout {layout : List Char} (hlayout : ∀ c ∈ layout, isLayout c = true) :
    Lexes layout [] := by
  rw [← List.append_nil layout]
  exact lexes_append_of_layout hlayout .nil

def partOf (c : Char) : StringPart :=
  if c.toNat < 0x20 ∧ c ∉ ['\x08', '\x0c', '\n', '\r', '\t'] then .unit c.toNat else .char c

def partsOf (s : String) : List StringPart := s.toList.map partOf

variable {parts : List StringPart}

theorem hexValue?_hexDigit : ∀ n < 16, hexValue? (hexDigit n) = some n := by decide

theorem readString_shortEscape {c e : Char} (he : simpleEscape? e = some c)
    (h : readString cs = some (parts, rest)) :
    readString ('\\' :: e :: cs) = some (.char c :: parts, rest) := by
  have hu : e ≠ 'u' := by
    rintro rfl
    cases he
  rw [readString]
  · simp only [he, h, Option.bind_eq_bind, Option.bind_some]
  · rintro a b c d cs' rfl
    exact absurd rfl hu

theorem readString_unit {n : Nat} (hn : n < 0x20) (h : readString cs = some (parts, rest)) :
    readString ('\\' :: 'u' :: '0' :: '0' :: hexDigit (n / 16) :: hexDigit n :: cs) =
      some (.unit n :: parts, rest) := by
  have hlow : hexValue? (hexDigit n) = some (n % 16) := by
    rw [← hexValue?_hexDigit (n % 16) (Nat.mod_lt n (by decide)), hexDigit, hexDigit, Nat.mod_mod]
  have hunit : ((0 * 16 + 0) * 16 + n / 16) * 16 + n % 16 = n := by omega
  have hzero : hexValue? '0' = some 0 := rfl
  simp only [readString, hzero, hexValue?_hexDigit (n / 16) (by omega), hlow, h,
    Option.bind_eq_bind, Option.bind_some, hunit]

theorem readString_escapeChar (c : Char) (h : readString cs = some (parts, rest)) :
    readString (escapeChar c ++ cs) = some (partOf c :: parts, rest) := by
  fun_cases escapeChar c with
  | case8 _ _ h₁ h₂ h₃ h₄ h₅ hc =>
    have hpart : partOf c = .unit c.toNat := if_pos ⟨hc, by simp [*]⟩
    rw [hpart]
    exact readString_unit hc h
  | case9 hquote hslash _ _ _ _ _ hc =>
    have hpart : partOf c = .char c := if_neg fun h => hc h.1
    rw [hpart, List.singleton_append, readString]
    · rw [if_neg (not_or.2 ⟨hc, hslash⟩), h]
      rfl
    · exact hquote
    · rintro _ _ _ _ _ rfl
      exact absurd rfl hslash
    · rintro _ _ rfl
      exact absurd rfl hslash
  | _ =>
    subst c
    exact readString_shortEscape rfl h

theorem readString_flatMap_escapeChar (cs rest : List Char) :
    readString (cs.flatMap escapeChar ++ '"' :: rest) = some (cs.map partOf, rest) := by
  induction cs with
  | nil => rfl
  | cons c cs ih =>
    rw [List.flatMap_cons, List.append_assoc, List.map_cons]
    exact readString_escapeChar c ih

theorem Lexes.quote (s : String) (h : Lexes rest ts) :
    Lexes ((quote s).toList ++ rest) (.atom (.string (partsOf s)) :: ts) := by
  have hread : readToken ('"' :: (s.toList.flatMap escapeChar ++ ['"'] ++ rest)) =
      some (.atom (.string (partsOf s)), rest) := by
    rw [readToken, List.append_assoc, List.singleton_append, readString_flatMap_escapeChar]
    rfl
  rw [Json.quote, String.toList_ofList]
  exact .token _ rfl hread h

/-! ## Numbers -/

def integerText (i : Int) : NumberText := ⟨decide (i < 0), decimalDigits i.natAbs, [], none⟩

def stops : List Char → Bool
  | [] => true
  | c :: _ => !(isDigit c || c == '.' || c == 'e' || c == 'E')

theorem stops_of_isLayout {c : Char} (hc : isLayout c = true) : stops (c :: rest) = true := by
  simp only [isLayout, Bool.or_eq_true, beq_iff_eq] at hc
  rcases hc with ((rfl | rfl) | rfl) | rfl <;> rfl

theorem stops_layout {layout : List Char} (hlayout : ∀ c ∈ layout, isLayout c = true) :
    stops layout = true := by
  cases layout with
  | nil => rfl
  | cons c layout => exact stops_of_isLayout (hlayout c List.mem_cons_self)

theorem run_digits (n : Nat) (h : stops rest = true) :
    run isDigit (decimalDigits n ++ rest) = (decimalDigits n, rest) := by
  have hdigits : ∀ c ∈ decimalDigits n, isDigit c = true := fun _ => isDigit_of_mem_decimalDigits
  cases rest with
  | nil => rw [List.append_nil, run_of_all hdigits]
  | cons c rest =>
    simp only [stops, Bool.not_eq_true', Bool.or_eq_false_iff] at h
    exact run_append_cons hdigits h.1.1.1

theorem readWhole_decimalDigits (n : Nat) (h : stops rest = true) :
    readWhole (decimalDigits n ++ rest) = some (decimalDigits n, rest) := by
  have hrun := run_digits n h
  obtain ⟨c, ds, hn, -, hzero⟩ := exists_decimalDigits_eq_cons n
  by_cases hc : c = '0'
  · rw [hzero hc]
    rfl
  · rw [hn, List.cons_append] at hrun ⊢
    rw [readWhole, hrun]
    intro cs heq
    exact hc (List.cons.inj heq).1

theorem readFraction_of_stops (h : stops rest = true) : readFraction rest = some ([], rest) := by
  unfold readFraction
  split
  · cases h
  · rfl

theorem readExponent_of_stops (h : stops rest = true) :
    readExponent rest = some (none, rest) := by
  cases rest with
  | nil => rfl
  | cons c rest =>
    simp only [stops, Bool.not_eq_true', Bool.or_eq_false_iff, beq_eq_false_iff_ne] at h
    exact if_neg (not_or.2 ⟨h.1.2, h.2⟩)

theorem readNumber_decimalDigits (n : Nat) (h : stops rest = true) :
    readNumber (decimalDigits n ++ rest) =
      some (⟨false, decimalDigits n, [], none⟩, rest) := by
  have hwhole := readWhole_decimalDigits n h
  obtain ⟨c, ds, hn, hc, -⟩ := exists_decimalDigits_eq_cons n
  have hminus : c ≠ '-' := by
    rintro rfl
    cases hc
  rw [hn, List.cons_append] at hwhole ⊢
  unfold readNumber
  split
  rename_i negative cs heq
  split at heq
  · rename_i heq'
    exact absurd (List.cons.inj heq').1 hminus
  · cases heq
    simp only [hwhole, readFraction_of_stops h, readExponent_of_stops h, Option.bind_eq_bind,
      Option.bind_some]

theorem readNumber_minus (n : Nat) (h : stops rest = true) :
    readNumber ('-' :: (decimalDigits n ++ rest)) =
      some (⟨true, decimalDigits n, [], none⟩, rest) := by
  simp only [readNumber, readWhole_decimalDigits n h, readFraction_of_stops h,
    readExponent_of_stops h, Option.bind_eq_bind, Option.bind_some]

theorem readToken_number {c : Char} (hc : isDigit c = true ∨ c = '-') (cs : List Char) :
    readToken (c :: cs) =
      (readNumber (c :: cs)).map fun (n, rest) => (.atom (.number n), rest) := by
  unfold readToken
  split
  case h_11 => rfl
  all_goals
    rename_i heq
    cases heq
    exact absurd hc (by decide)

theorem isLayout_number {c : Char} (hc : isDigit c = true ∨ c = '-') : isLayout c = false := by
  simp only [isLayout, Bool.or_eq_false_iff, beq_eq_false_iff_ne]
  refine ⟨⟨⟨?_, ?_⟩, ?_⟩, ?_⟩ <;>
    · rintro rfl
      exact absurd hc (by decide)

theorem integerText_ofNat (n : Nat) :
    integerText (.ofNat n) = ⟨false, decimalDigits n, [], none⟩ := rfl

theorem integerText_negSucc (n : Nat) :
    integerText (.negSucc n) = ⟨true, decimalDigits (n + 1), [], none⟩ := by
  rw [integerText, decide_eq_true (Int.negSucc_lt_zero n)]
  rfl

theorem Lexes.integer (i : Int) (hstops : stops rest = true) (h : Lexes rest ts) :
    Lexes ((Number.integer i).text.toList ++ rest) (.atom (.number (integerText i)) :: ts) := by
  cases i with
  | ofNat n =>
    have htext : (Number.integer (.ofNat n)).text.toList = decimalDigits n := Nat.toList_repr
    have hread := readNumber_decimalDigits n hstops
    obtain ⟨c, ds, hn, hc, -⟩ := exists_decimalDigits_eq_cons n
    rw [htext, integerText_ofNat]
    rw [hn] at hread ⊢
    refine .token ds (isLayout_number (.inl hc)) ?_ h
    rw [readToken_number (.inl hc), ← List.cons_append, hread]
    rfl
  | negSucc n =>
    have htext : (Number.integer (.negSucc n)).text.toList = '-' :: decimalDigits (n + 1) := by
      change (Int.repr _).toList = _
      rw [Int.repr_eq_if, if_neg (by omega), String.toList_append, Nat.toList_repr]
      rfl
    rw [htext, integerText_negSucc]
    refine .token _ rfl ?_ h
    rw [readToken_number (.inr rfl), readNumber_minus _ hstops]
    rfl

end FormLetter.Json
