import FormLetter.Number.Decimal

/-!
# Decimal digits read back

The digits of a number stand for it (`digitsValue_decimalDigits`), so what is written of a number
that fits a word is read as that number (`readWord?_decimalDigits`).
-/

namespace FormLetter.Number

theorem isDigit_of_mem_decimalDigits {n : Nat} {c : Char} (h : c ∈ decimalDigits n) :
    isDigit c = true :=
  Nat.isDigit_of_mem_toDigits (by decide) (by decide) h

theorem exists_decimalDigits_eq_cons (n : Nat) :
    ∃ c ds, decimalDigits n = c :: ds ∧ isDigit c = true ∧ (c = '0' → n = 0) := by
  suffices h : ∃ c ds, decimalDigits n = c :: ds ∧ (c = '0' → n = 0) by
    obtain ⟨c, ds, hn, hzero⟩ := h
    exact ⟨c, ds, hn, isDigit_of_mem_decimalDigits (hn ▸ List.mem_cons_self), hzero⟩
  induction n using Nat.strongRecOn with
  | ind n ih =>
    by_cases hlow : n < 10
    · exact ⟨_, [], Nat.toDigits_of_lt_base hlow, Nat.digitChar_eq_zero.1⟩
    · obtain ⟨c, ds, hn, hzero⟩ := ih (n / 10) (by omega)
      rw [decimalDigits, Nat.toDigits_of_base_le (by decide) (Nat.le_of_not_lt hlow),
        ← decimalDigits, hn]
      exact ⟨c, _, rfl, fun hc => absurd (hzero hc) (by omega)⟩

theorem digitsValue_decimalDigits (n : Nat) : digitsValue (decimalDigits n) = n :=
  Nat.ofDigitChars_toDigits (by decide) (by decide)

theorem readWord?_of_digits {cs : List Char} (hne : cs ≠ []) (h : ∀ c ∈ cs, isDigit c = true) :
    readWord? cs = if digitsValue cs < Nat.pow 2 64 then some (digitsValue cs) else none := by
  have hread : ¬(cs.isEmpty ∨ !cs.all isDigit) := by simpa [hne] using h
  rw [readWord?]
  · exact if_neg hread
  · rintro ds rfl
    exact absurd (h '+' List.mem_cons_self) (by decide)

theorem readWord?_decimalDigits {n : Nat} (h : n < Nat.pow 2 64) :
    readWord? (decimalDigits n) = some n := by
  obtain ⟨c, ds, hn, -, -⟩ := exists_decimalDigits_eq_cons n
  have hne : decimalDigits n ≠ [] := hn ▸ List.cons_ne_nil c ds
  rw [readWord?_of_digits hne fun _ => isDigit_of_mem_decimalDigits, digitsValue_decimalDigits,
    if_pos h]

end FormLetter.Number
