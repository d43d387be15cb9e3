import FormLetter.Number.Binary64
import Mathlib.Algebra.Order.Field.Power
import Mathlib.Data.Int.Log
import Mathlib.Data.Rat.Floor
import Mathlib.Tactic.GCongr
import Mathlib.Tactic.Linarith
import Mathlib.Tactic.NormNum
import Mathlib.Tactic.Positivity
import Mathlib.Tactic.Ring

/-!
# What binary64 operations compute

A finite number is read as a rational (`Binary64.toRat`). A quotient rounds to a finite number
exactly if it is below `overflowBound` (`isFinite_ofRatio_iff`), which all finite results are
(`abs_toRat_ofRatio_lt`). A number that is a natural number up to a sign (`IsWhole`) comes out of
rounding as it is up to `2^53`, so multiplying, dividing and rounding such numbers is exact there
(`IsWhole.mul`, `IsWhole.div`, `IsWhole.round`).
-/

namespace FormLetter.Number

theorem even_le_roundDiv_iff {k n d : Nat} (hk : k % 2 = 0) (hd : 0 < d) :
    k ≤ roundDiv n d ↔ 2 * (k * d) ≤ 2 * n + d := by
  have hn : n / d * d + n % d = n := Nat.div_add_mod' n d
  have hr := Nat.mod_lt n hd
  unfold roundDiv
  dsimp only
  generalize n / d = q at *
  generalize n % d = r at *
  subst hn
  rcases Nat.lt_trichotomy k (q + 1) with hlt | rfl | hgt
  · have hle : k * d ≤ q * d := Nat.mul_le_mul_right d (Nat.le_of_lt_succ hlt)
    refine iff_of_true ?_ (by omega)
    split_ifs <;> omega
  · have hmul : (q + 1) * d = q * d + d := Nat.succ_mul q d
    rw [hmul]
    split_ifs <;> omega
  · have hle : (q + 2) * d ≤ k * d := Nat.mul_le_mul_right d hgt
    have hmul : (q + 2) * d = q * d + 2 * d := Nat.add_mul q 2 d
    refine iff_of_false ?_ (by omega)
    split_ifs <;> omega

theorem roundDiv_le {k n d : Nat} (hd : 0 < d) (h : n ≤ k * d) : roundDiv n d ≤ k := by
  by_contra hlt
  have hmul : (k + 1) * d ≤ roundDiv n d * d := Nat.mul_le_mul_right d (by omega)
  have hnear := (roundDiv_near n hd).2
  rw [Nat.succ_mul] at hmul
  omega

theorem roundHalfUp_le (n : Nat) {d : Nat} (hd : 0 < d) : roundHalfUp n d ≤ n := by
  have hmul : n * 1 ≤ n * d := Nat.mul_le_mul_left n hd
  have hexpand : (n + 1) * (2 * d) = 2 * (n * d) + 2 * d := by ring
  exact Nat.lt_succ_iff.1 ((Nat.div_lt_iff_lt_mul (by omega)).2 (hexpand ▸ by omega))

theorem roundHalfUp_mul_right (n : Nat) {d : Nat} (hd : 0 < d) : roundHalfUp (n * d) d = n := by
  have hsum : 2 * (n * d) + d = d + n * (2 * d) := by ring
  rw [roundHalfUp, hsum, Nat.add_mul_div_right _ _ (by omega), Nat.div_eq_of_lt (by omega),
    Nat.zero_add]

theorem two_zpow_eq (e : ℤ) : (2 : ℚ) ^ e = 2 ^ e.toNat / 2 ^ (-e).toNat := by
  rw [← zpow_natCast, ← zpow_natCast, ← zpow_sub₀ two_ne_zero]
  congr 1
  omega

theorem two_zpow_le_iff {q : ℚ} (hq : 0 < q) (e : ℤ) : (2 : ℚ) ^ e ≤ q ↔ e ≤ Int.log 2 q := by
  have h := Int.zpow_le_iff_le_log (b := 2) (x := e) (by decide) hq
  rwa [Nat.cast_ofNat] at h

theorem lt_two_zpow_iff {q : ℚ} (hq : 0 < q) (e : ℤ) : q < (2 : ℚ) ^ e ↔ Int.log 2 q < e := by
  have h := Int.lt_zpow_iff_log_lt (b := 2) (x := e) (by decide) hq
  rwa [Nat.cast_ofNat] at h

theorem cast_scaled (n d : Nat) (e : ℤ) :
    ((n * Nat.pow 2 (-e).toNat : Nat) : ℚ) / ((d * Nat.pow 2 e.toNat : Nat) : ℚ) =
      n / d / 2 ^ e := by
  rw [two_zpow_eq]
  simp only [Nat.pow_eq]
  push_cast
  rw [div_div_eq_mul_div, div_mul_eq_mul_div, div_div, mul_comm (d : ℚ)]

namespace Binary64

variable {n d : Nat} {negative : Bool}

theorem reaches_iff (hd : 0 < d) (e : ℤ) : reaches n d e = true ↔ (2 : ℚ) ^ e ≤ n / d := by
  have hd' : (0 : ℚ) < d := Nat.cast_pos.2 hd
  rw [reaches, decide_eq_true_iff, two_zpow_eq, div_le_div_iff₀ (by positivity) hd', mul_comm d]
  simp only [Nat.pow_eq]
  exact_mod_cast Iff.rfl

theorem log2_eq_log (hn : 0 < n) (hd : 0 < d) :
    (if reaches n d (n.log2 - d.log2) then (n.log2 : ℤ) - d.log2 else n.log2 - d.log2 - 1) =
      Int.log 2 (n / d : ℚ) := by
  have hn' : (0 : ℚ) < n := Nat.cast_pos.2 hn
  have hd' : (0 : ℚ) < d := Nat.cast_pos.2 hd
  have hnlow : (2 : ℚ) ^ n.log2 ≤ n := by exact_mod_cast Nat.log2_self_le hn.ne'
  have hnhigh : (n : ℚ) < 2 ^ (n.log2 + 1) := by exact_mod_cast Nat.lt_log2_self
  have hdlow : (2 : ℚ) ^ d.log2 ≤ d := by exact_mod_cast Nat.log2_self_le hd.ne'
  have hdhigh : (d : ℚ) < 2 ^ (d.log2 + 1) := by exact_mod_cast Nat.lt_log2_self
  have hbelow : (2 : ℚ) ^ ((n.log2 : ℤ) - d.log2 - 1) ≤ n / d := by
    rw [sub_sub, zpow_sub₀ two_ne_zero, div_le_div_iff₀ (by positivity) hd']
    have := mul_le_mul hnlow hdhigh.le hd'.le hn'.le
    exact_mod_cast this
  have habove : (n : ℚ) / d < 2 ^ ((n.log2 : ℤ) - d.log2 + 1) := by
    rw [sub_add_eq_add_sub, zpow_sub₀ two_ne_zero, div_lt_div_iff₀ hd' (by positivity)]
    have := mul_lt_mul hnhigh hdlow (by positivity) (by positivity)
    exact_mod_cast this
  have hpos : (0 : ℚ) < n / d := div_pos hn' hd'
  have hlow := (two_zpow_le_iff hpos _).1 hbelow
  have hhigh := (lt_two_zpow_iff hpos _).1 habove
  have hreaches := (reaches_iff (n := n) hd (n.log2 - d.log2)).trans (two_zpow_le_iff hpos _)
  split
  · rename_i h
    have := hreaches.1 h
    omega
  · rename_i h
    have := mt hreaches.2 h
    omega

theorem unitExponent_eq (hn : 0 < n) (hd : 0 < d) :
    unitExponent n d = max (Int.log 2 (n / d : ℚ) - 52) minExponent := by
  rw [← log2_eq_log hn hd]
  rfl

/-! ## Rounded quotients -/

/-- The significand that a quotient rounds to, which is carried over at `2^53`. -/
def significand (n d : Nat) : Nat :=
  roundDiv (n * Nat.pow 2 (-unitExponent n d).toNat) (d * Nat.pow 2 (unitExponent n d).toNat)

theorem ofRatio_eq (hn : 0 < n) : ofRatio negative n d =
    if significand n d = Nat.pow 2 53 then
      (if maxExponent < unitExponent n d + 1 then .infinity negative
        else .finite negative (Nat.pow 2 52) (unitExponent n d + 1))
    else if maxExponent < unitExponent n d then .infinity negative
      else .finite negative (significand n d) (unitExponent n d) := by
  rw [ofRatio, if_neg hn.ne']
  by_cases h : significand n d = Nat.pow 2 53
  · rw [if_pos h]
    simp only [significand] at h
    simp only [h, if_true]
  · rw [if_neg h]
    simp only [significand] at h
    simp only [h, if_false, significand]

/-- Only a carry in the last unit exponent or a larger unit exponent overflows. -/
theorem isFinite_ofRatio (hn : 0 < n) : (ofRatio negative n d).isFinite = true ↔
    unitExponent n d < maxExponent ∨
      unitExponent n d = maxExponent ∧ significand n d ≠ Nat.pow 2 53 := by
  rw [ofRatio_eq hn]
  split_ifs with hcarry hlast hlast <;> simp only [isFinite] <;> simp [hcarry] <;> omega

theorem quotient_pos (hn : 0 < n) (hd : 0 < d) : (0 : ℚ) < n / d :=
  div_pos (Nat.cast_pos.2 hn) (Nat.cast_pos.2 hd)

theorem scaled_pos (hd : 0 < d) (e : ℤ) : 0 < d * Nat.pow 2 e.toNat :=
  Nat.mul_pos hd (Nat.pow_pos (by decide))

theorem significand_le (hn : 0 < n) (hd : 0 < d) : significand n d ≤ 2 ^ 53 := by
  refine roundDiv_le (scaled_pos hd _) ?_
  have hhigh := (lt_two_zpow_iff (quotient_pos hn hd) _).2 (Int.lt_add_one_of_le le_rfl)
  have hunit := unitExponent_eq hn hd
  have hscaled := cast_scaled n d (unitExponent n d)
  have hpos : (0 : ℚ) < ((d * Nat.pow 2 (unitExponent n d).toNat : Nat) : ℚ) :=
    Nat.cast_pos.2 (scaled_pos hd _)
  have hquotient : (n : ℚ) / d / 2 ^ unitExponent n d ≤ 2 ^ 53 := by
    rw [div_le_iff₀ (by positivity), ← zpow_natCast, ← zpow_add₀ two_ne_zero]
    refine hhigh.le.trans (zpow_le_zpow_right₀ one_le_two ?_)
    push_cast
    omega
  rw [← hscaled, div_le_iff₀ hpos] at hquotient
  exact_mod_cast hquotient

/-- Quotients from here on are too large to be rounded to a finite number. -/
def overflowBound : ℚ := 2 ^ 1024 - 2 ^ 970

theorem overflowBound_eq : overflowBound = (2 ^ 54 - 1) * 2 ^ (970 : ℤ) := by
  rw [overflowBound, show 1024 = 54 + 970 from rfl, pow_add, zpow_ofNat, sub_mul, one_mul]

theorem two_zpow_le_overflowBound {e : ℤ} (he : e ≤ 1023) : (2 : ℚ) ^ e ≤ overflowBound := by
  calc (2 : ℚ) ^ e ≤ 2 ^ ((53 : ℤ) + 970) := zpow_le_zpow_right₀ one_le_two (by omega)
    _ = 2 ^ (53 : ℤ) * 2 ^ (970 : ℤ) := zpow_add₀ two_ne_zero _ _
    _ ≤ (2 ^ 54 - 1) * 2 ^ (970 : ℤ) := by
      refine mul_le_mul_of_nonneg_right ?_ (zpow_nonneg zero_le_two _)
      norm_num
    _ = overflowBound := overflowBound_eq.symm

theorem overflowBound_le_two_zpow {e : ℤ} (he : 1024 ≤ e) : overflowBound ≤ (2 : ℚ) ^ e := by
  calc overflowBound = (2 ^ 54 - 1) * 2 ^ (970 : ℤ) := overflowBound_eq
    _ ≤ 2 ^ (54 : ℤ) * 2 ^ (970 : ℤ) := by
      refine mul_le_mul_of_nonneg_right ?_ (zpow_nonneg zero_le_two _)
      norm_num
    _ = 2 ^ ((54 : ℤ) + 970) := (zpow_add₀ two_ne_zero _ _).symm
    _ ≤ 2 ^ e := zpow_le_zpow_right₀ one_le_two (by omega)

/-- The last unit exponent carries over just where it overflows. -/
theorem significand_eq_iff (hn : 0 < n) (hd : 0 < d) (he : unitExponent n d = maxExponent) :
    significand n d = Nat.pow 2 53 ↔ overflowBound ≤ (n : ℚ) / d := by
  have hle := significand_le hn hd
  have htop : significand n d = Nat.pow 2 53 ↔ 2 ^ 53 ≤ significand n d :=
    ⟨fun h => h.ge, fun h => le_antisymm hle h⟩
  have hscaled := cast_scaled n d maxExponent
  have hpos : (0 : ℚ) < ((d * Nat.pow 2 maxExponent.toNat : Nat) : ℚ) :=
    Nat.cast_pos.2 (scaled_pos hd _)
  rw [htop, significand, he, even_le_roundDiv_iff (by decide) (scaled_pos hd _)]
  generalize n * Nat.pow 2 (-maxExponent).toNat = a at *
  generalize d * Nat.pow 2 maxExponent.toNat = b at *
  have hpow : (2 : ℚ) ^ maxExponent = 2 * 2 ^ (970 : ℤ) := by
    rw [maxExponent, show (971 : ℤ) = 1 + 970 from rfl, zpow_add₀ two_ne_zero, zpow_one]
  have hunit : (0 : ℚ) < 2 ^ (970 : ℤ) := zpow_pos two_pos _
  have hquotient : (n : ℚ) / d = 2 * a / b * 2 ^ (970 : ℤ) := by
    rw [eq_comm, div_eq_iff (zpow_pos two_pos _).ne', hpow] at hscaled
    rw [hscaled, ← mul_assoc, mul_comm (2 * (a : ℚ) / b), mul_div_assoc, mul_comm 2]
    ring
  rw [hquotient, overflowBound_eq, mul_le_mul_iff_left₀ hunit, le_div_iff₀ hpos]
  constructor
  · intro h
    have hcast : (2 * (2 ^ 53 * b) : ℚ) ≤ 2 * a + b := by exact_mod_cast h
    linarith only [hcast]
  · intro h
    have hcast : (2 * (2 ^ 53 * b) : ℚ) ≤ 2 * a + b := by linarith only [h]
    exact_mod_cast hcast

theorem isFinite_ofRatio_iff (hd : 0 < d) :
    (ofRatio negative n d).isFinite = true ↔ (n : ℚ) / d < overflowBound := by
  rcases Nat.eq_zero_or_pos n with rfl | hn
  · refine iff_of_true rfl ?_
    rw [Nat.cast_zero, zero_div]
    exact (zpow_pos two_pos 0).trans_le (two_zpow_le_overflowBound (by decide))
  have hpos := quotient_pos hn hd
  have hunit := unitExponent_eq hn hd
  have hcarry := significand_eq_iff hn hd
  rw [isFinite_ofRatio hn]
  simp only [minExponent, maxExponent] at *
  rcases lt_trichotomy (Int.log 2 (n / d : ℚ)) 1023 with hlt | heq | hgt
  · have hbelow : (n : ℚ) / d < 2 ^ (1023 : ℤ) := (lt_two_zpow_iff hpos _).2 hlt
    exact iff_of_true (.inl (by omega)) (hbelow.trans_le (two_zpow_le_overflowBound le_rfl))
  · have he : unitExponent n d = 971 := by omega
    simpa [he] using (hcarry he).not.trans not_le
  · have habove : (2 : ℚ) ^ (1024 : ℤ) ≤ n / d := (two_zpow_le_iff hpos _).2 hgt
    exact iff_of_false (by omega) (not_lt.2 ((overflowBound_le_two_zpow le_rfl).trans habove))

/-! ## Values -/

/-- The value of a finite number. The others have none and are taken for zero. -/
def toRat : Binary64 → ℚ
  | .finite negative m e => (if negative then -1 else 1) * (m * 2 ^ e)
  | _ => 0

theorem abs_toRat_finite (negative : Bool) (m : Nat) (e : ℤ) :
    |toRat (.finite negative m e)| = m * 2 ^ e := by
  have hpos : (0 : ℚ) ≤ m * 2 ^ e := by positivity
  cases negative <;> simp [toRat, abs_of_nonneg hpos]

theorem ofRatio_cases (negative : Bool) (n d : Nat) (hd : 0 < d) :
    (∃ m e, ofRatio negative n d = .finite negative m e ∧ m < 2 ^ 53 ∧ e ≤ maxExponent) ∨
      ofRatio negative n d = .infinity negative := by
  rcases Nat.eq_zero_or_pos n with rfl | hn
  · exact .inl ⟨0, minExponent, rfl, by decide, by decide⟩
  have hle := significand_le hn hd
  rw [ofRatio_eq hn]
  split_ifs with hcarry hlast hlast
  · exact .inr rfl
  · exact .inl ⟨_, _, rfl, by decide, by omega⟩
  · exact .inr rfl
  · exact .inl ⟨_, _, rfl, lt_of_le_of_ne hle hcarry, by omega⟩

/-- What a quotient is rounded to is itself below the bound. -/
theorem abs_toRat_ofRatio_lt (hd : 0 < d) : |(ofRatio negative n d).toRat| < overflowBound := by
  rcases ofRatio_cases negative n d hd with ⟨m, e, heq, hm, he⟩ | heq
  · rw [heq, abs_toRat_finite]
    have hm' : (m : ℚ) ≤ 2 ^ 53 - 1 := by
      have : (m + 1 : ℚ) ≤ 2 ^ 53 := by exact_mod_cast hm
      linarith only [this]
    have hunit : (0 : ℚ) < 2 ^ (970 : ℤ) := zpow_pos two_pos _
    calc (m : ℚ) * 2 ^ e ≤ (2 ^ 53 - 1) * 2 ^ ((1 : ℤ) + 970) := by
          refine mul_le_mul hm' (zpow_le_zpow_right₀ one_le_two he) (by positivity) ?_
          norm_num
      _ = (2 ^ 54 - 2) * 2 ^ (970 : ℤ) := by
          rw [zpow_add₀ two_ne_zero, ← mul_assoc]
          norm_num
      _ < (2 ^ 54 - 1) * 2 ^ (970 : ℤ) := by
          refine mul_lt_mul_of_pos_right ?_ hunit
          norm_num
      _ = overflowBound := overflowBound_eq.symm
  · rw [heq]
    exact abs_zero.trans_lt <| (zpow_pos two_pos 0).trans_le (two_zpow_le_overflowBound (by decide))

def IsWhole (x : Binary64) (negative : Bool) (k : Nat) : Prop :=
  ∃ m e, x = .finite negative m e ∧ (m : ℚ) * 2 ^ e = k

variable {x y : Binary64} {s t : Bool} {k l : Nat}

theorem IsWhole.isFinite (h : x.IsWhole s k) : x.isFinite = true := by
  obtain ⟨m, e, rfl, -⟩ := h
  rfl

/-- A quotient that is a natural number up to `2^53` is not rounded. -/
theorem isWhole_ofRatio (hd : 0 < d) (hk : k ≤ 2 ^ 53) (h : (n : ℚ) / d = k) :
    (ofRatio negative n d).IsWhole negative k := by
  rcases Nat.eq_zero_or_pos n with rfl | hn
  · refine ⟨0, minExponent, rfl, ?_⟩
    rw [← h]
    simp
  have hpos := quotient_pos hn hd
  have hunit := unitExponent_eq hn hd
  rw [h] at hpos hunit
  have hlow : 0 ≤ Int.log 2 (k : ℚ) := by
    refine (two_zpow_le_iff hpos 0).1 ?_
    rw [zpow_zero]
    exact_mod_cast hpos
  have hhigh : Int.log 2 (k : ℚ) < 54 := by
    refine (lt_two_zpow_iff hpos 54).1 (lt_of_le_of_lt (b := 2 ^ 53) (by exact_mod_cast hk) ?_)
    norm_num
  simp only [minExponent] at hunit
  -- The unit is at most 2, and 2 only for `2^53`, so there is a whole number of units.
  obtain ⟨m, hm⟩ : ∃ m : Nat, (m : ℚ) * 2 ^ unitExponent n d = k := by
    rcases le_or_gt (unitExponent n d) 0 with hle | hgt
    · refine ⟨k * 2 ^ (-unitExponent n d).toNat, ?_⟩
      rw [two_zpow_eq, Int.toNat_of_nonpos hle]
      push_cast
      field_simp
    · have hone : unitExponent n d = 1 := by omega
      have hge : (2 : ℚ) ^ (53 : ℤ) ≤ k := (two_zpow_le_iff hpos 53).2 (by omega)
      have hk' : k = 2 ^ 53 := le_antisymm hk (by exact_mod_cast hge)
      refine ⟨2 ^ 52, ?_⟩
      rw [hone, hk']
      norm_num
  have hsignificand : significand n d = m := by
    have hscaled := cast_scaled n d (unitExponent n d)
    have hdenominator : ((d * Nat.pow 2 (unitExponent n d).toNat : Nat) : ℚ) ≠ 0 :=
      Nat.cast_ne_zero.2 (scaled_pos hd _).ne'
    rw [h, ← hm, mul_div_cancel_right₀ _ (zpow_pos two_pos _).ne', div_eq_iff hdenominator]
      at hscaled
    have hmul : n * Nat.pow 2 (-unitExponent n d).toNat =
        m * (d * Nat.pow 2 (unitExponent n d).toNat) := by exact_mod_cast hscaled
    rw [significand, hmul, roundDiv_mul_right _ (scaled_pos hd _)]
  have hmax : maxExponent = 971 := rfl
  rw [ofRatio_eq hn, hsignificand]
  split_ifs with hcarry hlast hlast
  · omega
  · refine ⟨_, _, rfl, ?_⟩
    rw [← hm, hcarry, zpow_add_one₀ two_ne_zero, Nat.pow_eq, Nat.pow_eq]
    push_cast
    ring
  · omega
  · exact ⟨_, _, rfl, hm⟩

/-! ## Operations -/

theorem isWhole_ofNat (h : k ≤ 2 ^ 53) : (ofNat k).IsWhole false k :=
  isWhole_ofRatio one_pos h (by rw [Nat.cast_one, div_one])

theorem isWhole_of_toRat {i : ℤ} (hx : x.isFinite = true) (h : x.toRat = i) :
    ∃ s, x.IsWhole s i.natAbs ∧ (s && i.natAbs != 0) = decide (i < 0) := by
  cases x with
  | finite s m e =>
    have habs : (m : ℚ) * 2 ^ e = i.natAbs := by
      rw [← abs_toRat_finite s, h, Nat.cast_natAbs, Int.cast_abs]
    refine ⟨s, ⟨m, e, rfl, habs⟩, ?_⟩
    have hpos : (0 : ℚ) ≤ m * 2 ^ e := by positivity
    cases s with
    | false =>
      have hi : (0 : ℚ) ≤ i := by simpa [← h, toRat] using hpos
      have : 0 ≤ i := by exact_mod_cast hi
      simpa using this
    | true =>
      have hi : (i : ℚ) ≤ 0 := by simpa [← h, toRat] using hpos
      have : i ≤ 0 := by exact_mod_cast hi
      rw [Bool.true_and, Bool.eq_iff_iff, bne_iff_ne, decide_eq_true_iff]
      omega
  | infinity s => cases hx
  | nan => cases hx

theorem cast_product (m n : Nat) (e f : ℤ) :
    ((m * n * Nat.pow 2 (e + f).toNat : Nat) : ℚ) / (Nat.pow 2 (-(e + f)).toNat : Nat) =
      m * 2 ^ e * (n * 2 ^ f) := by
  have h := cast_scaled (m * n) 1 (-(e + f))
  rw [neg_neg, one_mul] at h
  rw [h, zpow_neg, div_inv_eq_mul, zpow_add₀ two_ne_zero]
  push_cast
  ring

theorem cast_quotient (m n : Nat) (e f : ℤ) :
    ((m * Nat.pow 2 (e - f).toNat : Nat) : ℚ) / (n * Nat.pow 2 (f - e).toNat : Nat) =
      m * 2 ^ e / (n * 2 ^ f) := by
  have h := cast_scaled m n (f - e)
  rw [neg_sub] at h
  rw [h, div_div, zpow_sub₀ two_ne_zero, mul_div_assoc', div_div_eq_mul_div]

theorem IsWhole.mul (hx : x.IsWhole s k) (hy : y.IsWhole t l) (h : k * l ≤ 2 ^ 53) :
    (x * y).IsWhole (s != t) (k * l) := by
  obtain ⟨m, e, rfl, hk⟩ := hx
  obtain ⟨n, f, rfl, hl⟩ := hy
  refine isWhole_ofRatio (Nat.pow_pos two_pos) h ?_
  rw [cast_product, hk, hl, Nat.cast_mul]

theorem IsWhole.div (hx : x.IsWhole s (k * l)) (hy : y.IsWhole t l) (hl0 : 0 < l)
    (h : k ≤ 2 ^ 53) : (x / y).IsWhole (s != t) k := by
  obtain ⟨m, e, rfl, hk⟩ := hx
  obtain ⟨n, f, rfl, hl⟩ := hy
  have hl' : (l : ℚ) ≠ 0 := Nat.cast_ne_zero.2 hl0.ne'
  have hn : n ≠ 0 := by
    rintro rfl
    exact hl' (by rw [← hl, Nat.cast_zero, zero_mul])
  show (Binary64.div _ _).IsWhole _ _
  rw [Binary64.div, if_neg hn]
  refine isWhole_ofRatio (scaled_pos (Nat.pos_of_ne_zero hn) _) h ?_
  rw [cast_quotient, hk, hl, Nat.cast_mul, mul_div_cancel_right₀ _ hl']

theorem IsWhole.round (hx : x.IsWhole s k) (h : k ≤ 2 ^ 53) : x.round.IsWhole s k := by
  obtain ⟨m, e, rfl, hk⟩ := hx
  rw [Binary64.round]
  split_ifs with he
  · exact ⟨m, e, rfl, hk⟩
  · have hpow : (2 : ℚ) ^ e = 1 / 2 ^ (-e).toNat := by
      rw [two_zpow_eq, Int.toNat_of_nonpos (by omega), pow_zero]
    rw [hpow, mul_one_div, div_eq_iff (by positivity)] at hk
    have hm : m = k * 2 ^ (-e).toNat := by exact_mod_cast hk
    rw [hm, Nat.pow_eq, roundHalfUp_mul_right _ (Nat.pow_pos two_pos)]
    exact isWhole_ofRatio one_pos h (by rw [Nat.cast_one, div_one])

theorem IsWhole.exists_eq (hx : x.IsWhole s k) : ∃ m e, x = .finite s m e ∧
    m * Nat.pow 2 e.toNat = k * Nat.pow 2 (-e).toNat := by
  obtain ⟨m, e, rfl, hk⟩ := hx
  refine ⟨m, e, rfl, ?_⟩
  rw [two_zpow_eq, mul_div_assoc', div_eq_iff (by positivity)] at hk
  exact_mod_cast hk

theorem IsWhole.floor? (hx : x.IsWhole s k) : x.floor? = some (if s then -(k : ℤ) else k) := by
  obtain ⟨m, e, rfl, hk⟩ := hx.exists_eq
  have hpow : ((Nat.pow 2 (-e).toNat : Nat) : ℤ) ≠ 0 :=
    Int.natCast_ne_zero.2 (Nat.pow_pos two_pos).ne'
  have hm : (m : ℤ) * (Nat.pow 2 e.toNat : Nat) = k * (Nat.pow 2 (-e).toNat : Nat) := by
    exact_mod_cast hk
  rw [Binary64.floor?]
  cases s
  · simp only [Bool.false_eq_true, if_false, hm, Int.mul_fdiv_cancel _ hpow]
  · simp only [if_true, neg_mul, hm]
    rw [← neg_mul, Int.mul_fdiv_cancel _ hpow]

theorem IsWhole.isNegative (hx : x.IsWhole s k) : x.isNegative = (s && k != 0) := by
  obtain ⟨m, e, rfl, hk⟩ := hx
  have hzero : m = 0 ↔ k = 0 := by
    rw [← Nat.cast_eq_zero (R := ℚ) (n := k), ← hk, mul_eq_zero, Nat.cast_eq_zero]
    exact (or_iff_left (zpow_pos two_pos _).ne').symm
  have hsame : (m != 0) = (k != 0) := by
    rw [Bool.eq_iff_iff, bne_iff_ne, bne_iff_ne]
    exact not_congr hzero
  rw [Binary64.isNegative, hsame]

/-! ## Overflow -/

/-- A number as rounding leaves it: of few enough digits, and below the bound. -/
def IsRounded (x : Binary64) : Prop :=
  ∃ s m e, x = .finite s m e ∧ m < 2 ^ 53 ∧ |x.toRat| < overflowBound

theorem isRounded_ofRatio (hd : 0 < d) (h : (n : ℚ) / d < overflowBound) :
    (ofRatio negative n d).IsRounded := by
  have hfinite : (ofRatio negative n d).isFinite = true := (isFinite_ofRatio_iff hd).2 h
  have hlt : |(ofRatio negative n d).toRat| < overflowBound := abs_toRat_ofRatio_lt hd
  rcases ofRatio_cases negative n d hd with ⟨m, e, heq, hm, -⟩ | heq
  · exact ⟨negative, m, e, heq, hm, hlt⟩
  · rw [heq] at hfinite
    cases hfinite

theorem ofRatio_eq_infinity (hd : 0 < d) (h : overflowBound ≤ (n : ℚ) / d) :
    ofRatio negative n d = .infinity negative := by
  rcases ofRatio_cases negative n d hd with ⟨m, e, heq, -⟩ | heq
  · exact absurd ((isFinite_ofRatio_iff hd).1 (by rw [heq]; rfl)) (not_lt.2 h)
  · exact heq

theorem IsRounded.isFinite (h : x.IsRounded) : x.isFinite = true := by
  obtain ⟨s, m, e, rfl, -⟩ := h
  rfl

theorem IsRounded.round (h : x.IsRounded) : x.round.IsRounded := by
  obtain ⟨s, m, e, rfl, hm, hlt⟩ := h
  rw [Binary64.round]
  split_ifs with he
  · exact ⟨s, m, e, rfl, hm, hlt⟩
  · refine isRounded_ofRatio one_pos ?_
    have hle : roundHalfUp m (Nat.pow 2 (-e).toNat) < 2 ^ 53 :=
      (roundHalfUp_le m (Nat.pow_pos two_pos)).trans_lt hm
    have hbound : (2 : ℚ) ^ (53 : ℤ) ≤ overflowBound := two_zpow_le_overflowBound (by decide)
    rw [Nat.cast_one, div_one]
    exact lt_of_lt_of_le (by exact_mod_cast hle) hbound

theorem IsRounded.div (h : x.IsRounded) (hy : y.IsWhole t l) (hl : 0 < l) :
    (x / y).IsRounded := by
  obtain ⟨s, m, e, rfl, -, hlt⟩ := h
  obtain ⟨n, f, rfl, hn⟩ := hy
  have hl' : (1 : ℚ) ≤ l := by exact_mod_cast hl
  have hn0 : n ≠ 0 := by
    rintro rfl
    rw [Nat.cast_zero, zero_mul] at hn
    linarith only [hl', hn]
  show (Binary64.div _ _).IsRounded
  rw [Binary64.div, if_neg hn0]
  refine isRounded_ofRatio (scaled_pos (Nat.pos_of_ne_zero hn0) _) ?_
  rw [abs_toRat_finite] at hlt
  rw [cast_quotient, hn]
  exact (div_le_self (by positivity) hl').trans_lt hlt

/-- Scaling by a natural number, rounding and scaling back gives a finite number exactly if the
product is below the bound, and an infinity of the sign if it is not. -/
theorem scaled_cases (x : Binary64) (hk : 0 < k) (hle : k ≤ 2 ^ 53) :
    (x.isFinite = true ∧ |x.toRat| * k < overflowBound ∧
        ((x * ofNat k).round / ofNat k).isFinite = true) ∨
      (x.isFinite = true ∧ overflowBound ≤ |x.toRat| * k ∧
        ∃ s, (x * ofNat k).round / ofNat k = .infinity s) ∨
      (x.isFinite = false ∧ ((x * ofNat k).round / ofNat k).isFinite = false) := by
  have hfactor := isWhole_ofNat hle
  obtain ⟨n, f, hy, hn⟩ := id hfactor
  have hn0 : n ≠ 0 := by
    rintro rfl
    rw [Nat.cast_zero, zero_mul, eq_comm, Nat.cast_eq_zero] at hn
    exact hk.ne' hn
  cases x with
  | finite s m e =>
    have hproduct : .finite s m e * ofNat k = ofRatio (s != false)
        (m * n * Nat.pow 2 (e + f).toNat) (Nat.pow 2 (-(e + f)).toNat) := by
      rw [hy]
      rfl
    have hvalue := cast_product m n e f
    rw [hn, ← abs_toRat_finite s] at hvalue
    have hpos : 0 < Nat.pow 2 (-(e + f)).toNat := Nat.pow_pos two_pos
    rcases lt_or_ge (|toRat (.finite s m e)| * k) overflowBound with hlt | hge
    · have hrounded : (.finite s m e * ofNat k : Binary64).IsRounded := by
        rw [hproduct]
        exact isRounded_ofRatio hpos (hvalue ▸ hlt)
      exact .inl ⟨rfl, hlt, (hrounded.round.div hfactor hk).isFinite⟩
    · refine .inr (.inl ⟨rfl, hge, s != false, ?_⟩)
      rw [hproduct, ofRatio_eq_infinity hpos (hvalue ▸ hge), hy]
      cases s <;> rfl
  | infinity s =>
    refine .inr (.inr ⟨rfl, ?_⟩)
    have hproduct : .infinity s * ofNat k = .infinity (s != false) := by
      rw [hy]
      exact if_neg hn0
    rw [hproduct, hy]
    rfl
  | nan =>
    refine .inr (.inr ⟨rfl, ?_⟩)
    rw [hy]
    rfl

end Binary64

end FormLetter.Number
