import FormLetter.Filter.Number
import FormLetter.Proofs.Number.Fixed
import FormLetter.Proofs.Text.Run

/-!
# Values that are integers

A JSON number or a text with the decimal digits of an integer, with any white space around them
(`Value.IsInteger`), is read as that integer without rounding up to `2^53`
(`exists_asNumber?_of_isInteger`). A natural number that is spelled out is a count of decimals if it
is not above the most that are printed (`decimals?_of_spells`).
-/

namespace FormLetter

open FormLetter.Json FormLetter.Number FormLetter.Text

variable {v : Value} {i : Int} {c : Char} {cs : List Char}

theorem toList_toString_int (i : Int) :
    (toString i).toList = (if i < 0 then ['-'] else []) ++ decimalDigits i.natAbs := by
  show (Int.repr i).toList = _
  rw [Int.repr_eq_if]
  split_ifs with hneg hnonneg hnonneg
  · omega
  · have hnat : i.toNat = i.natAbs := by omega
    rw [hnat, List.nil_append]
    exact Nat.toList_repr
  · rw [String.toList_append, Nat.toList_repr]
    congr 2
    omega
  · omega

theorem isDigit_iff : isDigit c = true ↔ 48 ≤ c.toNat ∧ c.toNat ≤ 57 := by
  rw [isDigit, Bool.and_eq_true, decide_eq_true_iff, decide_eq_true_iff, Char.le_def, Char.le_def,
    UInt32.le_iff_toNat_le, UInt32.le_iff_toNat_le]
  rfl

theorem isBlank_of_isDigit (h : isDigit c = true) : isBlank c = false := by
  have hc := isDigit_iff.1 h
  simp only [isBlank, Bool.or_eq_false_iff, Bool.and_eq_false_iff, decide_eq_false_iff_not,
    beq_eq_false_iff_ne]
  omega

/-- White space around the decimal digits of an integer is trimmed off, and nothing else. -/
theorem trim_toString {before after : List Char} (hbefore : ∀ c ∈ before, isBlank c = true)
    (hafter : ∀ c ∈ after, isBlank c = true) (i : Int) :
    trim (before ++ (toString i).toList ++ after) = (toString i).toList := by
  have hdigits := decimalDigits_ne_nil i.natAbs
  have hmem : ∀ c ∈ (toString i).toList, isBlank c = false := by
    intro c hc
    rw [toList_toString_int] at hc
    rcases List.mem_append.1 hc with hsign | hdigit
    · split_ifs at hsign with hneg
      · rw [List.mem_singleton.1 hsign]
        rfl
      · cases hsign
    · exact isBlank_of_isDigit (isDigit_of_mem_decimalDigits hdigit)
  refine trim_append hbefore hafter ?_ (fun c hc => hmem c (List.mem_of_mem_head? hc))
    fun c hc => hmem c (List.mem_of_mem_getLast? hc)
  rw [toList_toString_int]
  exact List.append_ne_nil_of_right_ne_nil _ hdigits

theorem takeSign_of_isDigit (h : ∀ c ∈ cs.head?, isDigit c = true) : takeSign cs = (false, cs) := by
  unfold takeSign
  split
  · cases h '-' rfl
  · cases h '+' rfl
  · rfl

theorem parse?_toString (i : Int) :
    Numeral.parse? (toString i).toList = some ⟨decide (i < 0), i.natAbs, 0⟩ := by
  have hall : ∀ c ∈ decimalDigits i.natAbs, isDigit c = true :=
    fun _ => isDigit_of_mem_decimalDigits
  obtain ⟨htake, hdrop⟩ := Prod.mk.inj (run_of_all hall)
  have hsign : takeSign (toString i).toList = (decide (i < 0), decimalDigits i.natAbs) := by
    rw [toList_toString_int]
    split_ifs with hneg
    · rw [decide_eq_true hneg]
      rfl
    · rw [List.nil_append, takeSign_of_isDigit, decide_eq_false hneg]
      exact fun c hc => hall c (List.mem_of_mem_head? hc)
  rw [Numeral.parse?, hsign]
  simp only [htake, hdrop, List.isEmpty_iff, decimalDigits_ne_nil, List.append_nil,
    digitsValue_decimalDigits, exponentPart?]
  rfl

/-! ## Values -/

/-- A value that spells an integer out: a JSON number without a point, or a text of its decimal
digits with any white space around them. -/
inductive Json.Value.Spells : Value → Int → Prop where
  | number {i : Int} : Spells (.number (.integer i)) i
  | text {s : String} {before after : List Char} {i : Int} :
    (∀ c ∈ before, Text.isBlank c = true) → (∀ c ∈ after, Text.isBlank c = true) →
    s.toList = before ++ (toString i).toList ++ after → Spells (.text s) i

/-- A value that is an integer, spelled out or as a JSON number of another form. -/
inductive Json.Value.IsInteger : Value → Int → Prop where
  | spelled {v : Value} {i : Int} : v.Spells i → IsInteger v i
  | double {x : Binary64} {i : Int} :
    x.isFinite = true → x.toRat = i → IsInteger (.number (.double x)) i

theorem decide_and_natAbs (i : Int) : (decide (i < 0) && i.natAbs != 0) = decide (i < 0) := by
  rw [Bool.eq_iff_iff, Bool.and_eq_true, bne_iff_ne, decide_eq_true_iff]
  omega

theorem toBinary64_integer (negative : Bool) (n : Nat) :
    Numeral.toBinary64 ⟨negative, n, 0⟩ = .ofRatio negative n 1 := by
  have hclamp : Numeral.clamp ⟨negative, n, 0⟩ (decimalDigits n).length = ⟨negative, n, 0⟩ := by
    rw [Numeral.clamp]
    congr 1
    show max (-_ - 400) (min 400 0) = 0
    omega
  rw [Numeral.toBinary64, hclamp]
  exact congrArg (Binary64.ofRatio negative · 1) (Nat.mul_one n)

/-- An integer up to `2^53` is read as it is. Only a zero may be read with a sign. -/
theorem exists_asNumber?_of_isInteger (h : v.IsInteger i) (hi : i.natAbs ≤ 2 ^ 53) :
    ∃ x s, v.asNumber? = some x ∧ x.IsWhole s i.natAbs ∧
      (s && i.natAbs != 0) = decide (i < 0) := by
  have hwhole : (Binary64.ofRatio (decide (i < 0)) i.natAbs 1).IsWhole (decide (i < 0)) i.natAbs :=
    Binary64.isWhole_ofRatio one_pos hi (by rw [Nat.cast_one, div_one])
  cases h with
  | double hfinite hvalue =>
    obtain ⟨s, hx, hsign⟩ := Binary64.isWhole_of_toRat hfinite hvalue
    exact ⟨_, s, rfl, hx, hsign⟩
  | spelled h =>
    refine ⟨_, _, ?_, hwhole, decide_and_natAbs i⟩
    cases h with
    | number => rfl
    | text hbefore hafter hs =>
      rw [Value.asNumber?, hs, trim_toString hbefore hafter, parse?_toString]
      simp only [Option.bind_eq_bind, Option.bind_some, toBinary64_integer]
      exact if_pos hwhole.isFinite

theorem exists_floor?_of_isInteger (h : v.IsInteger i) (hi : i.natAbs ≤ 2 ^ 53) :
    ∃ x, v.asNumber? = some x ∧ x.floor? = some i := by
  obtain ⟨x, s, hx, hwhole, hsign⟩ := exists_asNumber?_of_isInteger h hi
  refine ⟨x, hx, hwhole.floor?.trans (congrArg some ?_)⟩
  rw [Bool.eq_iff_iff, Bool.and_eq_true, bne_iff_ne, decide_eq_true_iff] at hsign
  cases s
  · simp only [Bool.false_eq_true, false_and, false_iff, if_false] at hsign ⊢
    omega
  · simp only [true_and, if_true] at hsign ⊢
    omega

/-- A small natural number that is spelled out is a count of decimals. -/
theorem decimals?_of_spells {d : Nat} (h : v.Spells d) (hd : d ≤ maxDecimals) :
    decimals? v = .ok d := by
  have hmax : maxDecimals = 15 := rfl
  have hdigits : (toString (d : Int)).toList = decimalDigits d := by
    rw [toList_toString_int, if_neg (by omega), List.nil_append, Int.natAbs_natCast]
  have htrim : trim v.plain.toList = decimalDigits d := by
    rw [← hdigits]
    cases h with
    | number =>
      have hbare := trim_toString (List.forall_mem_nil _) (List.forall_mem_nil _) (d : Int)
      rwa [List.nil_append, List.append_nil] at hbare
    | text hbefore hafter hs =>
      rw [Value.plain, hs, trim_toString hbefore hafter]
  have hfits : d < Nat.pow 2 64 := lt_of_le_of_lt hd (by decide)
  rw [decimals?, htrim, readWord?_decimalDigits hfits]
  exact if_pos hd

end FormLetter
