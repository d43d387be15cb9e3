import FormLetter.Proofs.Number.Binary64
import FormLetter.Proofs.Number.Decimal

/-!
# Fixed places

What is written with a fixed count of decimals has at least one digit before them and exactly that
many of them (`isFixed_fixedDigits`). A natural number has its own digits and zeros after them
(`fixedDigits_mul`).
-/

namespace FormLetter.Number

variable {n k d places width : Nat} {c : Char}

theorem isDigit_of_mem_zeroPadded (h : c ∈ zeroPadded width n) : isDigit c = true := by
  rcases List.mem_append.1 h with h | h
  · rw [List.eq_of_mem_replicate h]
    rfl
  · exact isDigit_of_mem_decimalDigits h

theorem le_length_zeroPadded (width n : Nat) : width ≤ (zeroPadded width n).length := by
  simp only [zeroPadded, List.length_append, List.length_replicate]
  omega

/-- An integer part and decimals: digits, of which there is one at least, and so many. -/
structure IsFixed (places : Nat) (whole fraction : List Char) : Prop where
  ne_nil : whole ≠ []
  length : fraction.length = places
  digits : ∀ c ∈ whole ++ fraction, isDigit c = true

theorem isFixed_fixedDigits (n d places : Nat) :
    IsFixed places (fixedDigits n d places).1 (fixedDigits n d places).2 := by
  simp only [fixedDigits, List.splitAt_eq]
  generalize roundDiv (n * Nat.pow 10 places) d = scaled
  have hlength := le_length_zeroPadded (places + 1) scaled
  refine ⟨?_, ?_, fun c hc => ?_⟩
  · rw [← List.length_pos_iff, List.length_take]
    omega
  · rw [List.length_drop]
    omega
  · rw [List.take_append_drop] at hc
    exact isDigit_of_mem_zeroPadded hc

theorem Binary64.isFixed_fixed {x : Binary64} (h : x.isFinite = true) (places : Nat) :
    IsFixed places (x.fixed places).1 (x.fixed places).2 := by
  cases x with
  | finite s m e => exact isFixed_fixedDigits ..
  | infinity s => cases h
  | nan => cases h

theorem decimalDigits_mul_ten (h : 0 < n) : decimalDigits (n * 10) = decimalDigits n ++ ['0'] := by
  rw [decimalDigits, Nat.toDigits_of_base_le (by decide) (by omega),
    Nat.mul_div_cancel _ (by decide), Nat.mul_mod_left]
  rfl

theorem decimalDigits_mul_pow (h : 0 < n) (places : Nat) :
    decimalDigits (n * 10 ^ places) = decimalDigits n ++ List.replicate places '0' := by
  induction places with
  | zero => simp
  | succ places ih =>
    have hpos : 0 < n * 10 ^ places := Nat.mul_pos h (Nat.pow_pos (by decide))
    rw [Nat.pow_succ, ← Nat.mul_assoc, decimalDigits_mul_ten hpos, ih, List.replicate_succ',
      List.append_assoc]

theorem decimalDigits_ne_nil (n : Nat) : decimalDigits n ≠ [] := by
  obtain ⟨c, ds, hn, -⟩ := exists_decimalDigits_eq_cons n
  rw [hn]
  exact List.cons_ne_nil c ds

theorem zeroPadded_mul_pow (n places : Nat) :
    zeroPadded (places + 1) (n * 10 ^ places) = decimalDigits n ++ List.replicate places '0' := by
  rcases Nat.eq_zero_or_pos n with rfl | h
  · rw [Nat.zero_mul]
    simp [zeroPadded, decimalDigits, List.replicate_succ, ← List.replicate_succ']
  · have hlength := List.length_pos_iff.2 (decimalDigits_ne_nil n)
    rw [zeroPadded, decimalDigits_mul_pow h, List.length_append, List.length_replicate,
      Nat.sub_eq_zero_of_le (by omega)]
    rfl

theorem fixedDigits_mul (hd : 0 < d) (n places : Nat) :
    fixedDigits (n * d) d places = (decimalDigits n, List.replicate places '0') := by
  have hscaled : n * d * Nat.pow 10 places = n * 10 ^ places * d := by
    rw [Nat.pow_eq, Nat.mul_right_comm]
  simp only [fixedDigits, hscaled, roundDiv_mul_right _ hd, zeroPadded_mul_pow, List.splitAt_eq,
    List.length_append, List.length_replicate, Nat.add_sub_cancel, List.take_left', List.drop_left']

theorem Binary64.IsWhole.fixed_abs {x : Binary64} {s : Bool} (h : x.IsWhole s k) (places : Nat) :
    x.abs.fixed places = (decimalDigits k, List.replicate places '0') := by
  obtain ⟨m, e, rfl, hm⟩ := h.exists_eq
  have hpow : 0 < Nat.pow 2 (-e).toNat := Nat.pow_pos two_pos
  rw [Binary64.abs, Binary64.fixed, hm, fixedDigits_mul hpow]

end FormLetter.Number
