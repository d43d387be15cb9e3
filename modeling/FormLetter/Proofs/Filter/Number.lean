import FormLetter.Proofs.Number.Integer

/-!
# The number filter

Digits are written in groups of three from the right (`grouped_iff`), so a number that is finite
when it is written is written as a numeral of its profile (`isNumeral_formatNumber`). A finite
number need not be finite then: it is multiplied by a power of ten first, which overflows from a
bound on, and its text is that of an infinity (`formatNumber_isNumeral_iff`). An integer on which
that is exact is written with its own digits and zeros after the point (`exists_number_apply`).
-/

namespace FormLetter

open FormLetter.Json FormLetter.Number FormLetter.Text

/-- Digits in groups of three with a separator in front of each, after one group of one to three. -/
def Grouped (separator digits text : List Char) : Prop :=
  ∃ (first : List Char) (groups : List (List Char)), 1 ≤ first.length ∧ first.length ≤ 3 ∧
    (∀ g ∈ groups, g.length = 3) ∧ digits = first ++ groups.flatten ∧
    text = first ++ groups.flatMap (separator ++ ·)

variable {separator digits text first : List Char} {groups : List (List Char)}

theorem length_flatten_groups (h : ∀ g ∈ groups, g.length = 3) :
    groups.flatten.length % 3 = 0 := by
  induction groups with
  | nil => rfl
  | cons g groups ih =>
    obtain ⟨hg, hgroups⟩ := List.forall_mem_cons.1 h
    have := ih hgroups
    rw [List.flatten_cons, List.length_append]
    omega

theorem groupThousands_cons (separator : List Char) (d : Char) (ds : List Char) :
    groupThousands separator (d :: ds) =
      if ds.length % 3 = 0 ∧ !ds.isEmpty then d :: separator ++ groupThousands separator ds
      else d :: groupThousands separator ds := rfl

theorem grouped_groupThousands (h : digits ≠ []) :
    Grouped separator digits (groupThousands separator digits) := by
  induction digits with
  | nil => exact absurd rfl h
  | cons d digits ih =>
    cases digits with
    | nil => exact ⟨[d], [], by simp, by simp, by simp, rfl, rfl⟩
    | cons e digits =>
      obtain ⟨first, groups, hpos, hle, hgroups, hdigits, htext⟩ := ih (List.cons_ne_nil _ _)
      have hlength : (e :: digits).length = first.length + groups.flatten.length := by
        rw [hdigits, List.length_append]
      have hmod := length_flatten_groups hgroups
      rw [groupThousands_cons, htext]
      simp only [List.isEmpty_cons, Bool.not_false, and_true]
      split_ifs with hfull
      · -- The first group has three digits, and a new one starts.
        refine ⟨[d], first :: groups, by simp, by simp, ?_, ?_, ?_⟩
        · exact List.forall_mem_cons.2 ⟨by omega, hgroups⟩
        · rw [hdigits]
          rfl
        · simp
      · refine ⟨d :: first, groups, by simp, ?_, hgroups, ?_, rfl⟩
        · rw [List.length_cons]
          omega
        · rw [hdigits]
          rfl

/-- A group in front of full groups is kept together. -/
theorem groupThousands_append {rest : List Char} (hne : first ≠ []) (hle : first.length ≤ 3)
    (hrest : rest.length % 3 = 0) :
    groupThousands separator (first ++ rest) =
      first ++ if rest = [] then [] else separator ++ groupThousands separator rest := by
  induction first with
  | nil => exact absurd rfl hne
  | cons d first ih =>
    rw [List.length_cons] at hle
    rw [List.cons_append, groupThousands_cons]
    cases first with
    | nil =>
      cases rest with
      | nil => rfl
      | cons e rest => exact if_pos ⟨hrest, rfl⟩
    | cons e first =>
      have hopen : ¬((e :: first ++ rest).length % 3 = 0 ∧ !(e :: first ++ rest).isEmpty) := by
        rw [List.length_cons] at hle
        rw [List.length_append, List.length_cons]
        omega
      rw [if_neg hopen, ih (List.cons_ne_nil _ _) (Nat.le_of_succ_le hle)]
      rfl

theorem grouped_iff :
    Grouped separator digits text ↔ digits ≠ [] ∧ text = groupThousands separator digits := by
  constructor
  · rintro ⟨first, groups, hpos, hle, hgroups, rfl, rfl⟩
    have hne : first ≠ [] := List.length_pos_iff.1 hpos
    refine ⟨List.append_ne_nil_of_left_ne_nil hne _, ?_⟩
    rw [groupThousands_append hne hle (length_flatten_groups hgroups)]
    clear hpos hle hne
    induction groups with
    | nil => rfl
    | cons g groups ih =>
      obtain ⟨hg, hgroups⟩ := List.forall_mem_cons.1 hgroups
      have hgne : g ≠ [] := List.length_pos_iff.1 (by omega)
      have hrest := List.append_cancel_left (ih hgroups)
      rw [if_neg (by simp [hgne]), List.flatMap_cons, List.flatten_cons,
        groupThousands_append hgne hg.le (length_flatten_groups hgroups), ← hrest,
        List.append_assoc]
  · rintro ⟨hne, rfl⟩
    exact grouped_groupThousands hne

/-! ## Numerals -/

/-- What a profile makes of an integer part and decimals: the integer part in groups of three, and
the decimals after a point if there are any. -/
def NumberProfile.Writes (profile : NumberProfile) (negative : Bool) (whole fraction : List Char)
    (text : String) : Prop :=
  ∃ grouped, Grouped profile.thousands.toList whole grouped ∧
    text.toList = (if negative then ['-'] else []) ++ grouped ++
      if fraction = [] then [] else profile.decimal.toList ++ fraction

/-- A numeral of a profile: some sign, some digits in groups of three, and so many decimals. -/
def NumberProfile.IsNumeral (profile : NumberProfile) (decimals : Nat) (text : String) : Prop :=
  ∃ negative whole fraction, IsFixed decimals whole fraction ∧
    profile.Writes negative whole fraction text

variable {profile : NumberProfile} {negative : Bool} {whole fraction : List Char} {decimals : Nat}
  {x : Binary64} {line : String}

theorem NumberProfile.writes_iff : profile.Writes negative whole fraction line ↔
    whole ≠ [] ∧ line = String.ofList ((if negative then ['-'] else []) ++
      groupThousands profile.thousands.toList whole ++
      if fraction = [] then [] else profile.decimal.toList ++ fraction) := by
  constructor
  · rintro ⟨grouped, hgrouped, hline⟩
    obtain ⟨hne, rfl⟩ := grouped_iff.1 hgrouped
    exact ⟨hne, by rw [← hline, String.ofList_toList]⟩
  · rintro ⟨hne, rfl⟩
    exact ⟨_, grouped_groupThousands hne, String.toList_ofList⟩

theorem NumberProfile.IsNumeral.exists_digit (h : profile.IsNumeral decimals line) :
    ∃ c rest, isDigit c = true ∧ (line.toList = c :: rest ∨ line.toList = '-' :: c :: rest) := by
  obtain ⟨negative, whole, fraction, hfixed, grouped, ⟨first, groups, hpos, -, -, hwhole, hgrouped⟩,
    hline⟩ := h
  obtain ⟨c, cs, rfl⟩ := List.exists_cons_of_length_pos hpos
  have hc : isDigit c = true := hfixed.digits c (by simp [hwhole])
  refine ⟨c, cs ++ groups.flatMap (profile.thousands.toList ++ ·) ++
    if fraction = [] then [] else profile.decimal.toList ++ fraction, hc, ?_⟩
  rw [hline, hgrouped]
  cases negative
  · exact .inl rfl
  · exact .inr rfl

def Number.Binary64.roundedTo (x : Binary64) (decimals : Nat) : Binary64 :=
  (x * ofNat (10 ^ min decimals maxDecimals)).round /
    ofNat (10 ^ min decimals maxDecimals)

theorem Number.Binary64.roundedTo_eq (x : Binary64) (decimals : Nat) :
    (x * ofNat (10 ^ min decimals maxDecimals)).round /
      ofNat (10 ^ min decimals maxDecimals) = x.roundedTo decimals := rfl

theorem formatNumber_eq (x : Binary64) (decimals : Nat) (profile : NumberProfile) :
    formatNumber x decimals profile = String.ofList
      ((if (x.roundedTo decimals).isNegative then ['-'] else []) ++
        groupThousands profile.thousands.toList
          ((x.roundedTo decimals).abs.fixed (min decimals maxDecimals)).1 ++
        if ((x.roundedTo decimals).abs.fixed (min decimals maxDecimals)).2 = [] then []
        else profile.decimal.toList ++
          ((x.roundedTo decimals).abs.fixed (min decimals maxDecimals)).2) := by
  rw [formatNumber]
  simp only [List.isEmpty_iff]
  rfl

theorem writes_formatNumber (profile : NumberProfile)
    (h : ((x.roundedTo decimals).abs.fixed (min decimals maxDecimals)) = (whole, fraction))
    (hwhole : whole ≠ []) :
    profile.Writes (x.roundedTo decimals).isNegative whole fraction
      (formatNumber x decimals profile) := by
  refine NumberProfile.writes_iff.2 ⟨hwhole, ?_⟩
  rw [formatNumber_eq, h]

theorem isNumeral_formatNumber (h : (x.roundedTo decimals).isFinite = true) :
    profile.IsNumeral (min decimals maxDecimals) (formatNumber x decimals profile) := by
  have habs : (x.roundedTo decimals).abs.isFinite = true := by
    cases hr : x.roundedTo decimals with
    | finite s m e => rfl
    | infinity s => rw [hr] at h; cases h
    | nan => rw [hr] at h; cases h
  have hfixed := Binary64.isFixed_fixed habs (min decimals maxDecimals)
  exact ⟨_, _, _, hfixed, writes_formatNumber profile rfl hfixed.ne_nil⟩

theorem formatNumber_of_infinity {s : Bool} (h : x.roundedTo decimals = .infinity s) :
    formatNumber x decimals profile = if s then "-inf" else "inf" := by
  rw [formatNumber_eq, h]
  cases s <;> rfl

theorem formatNumber_of_nan (h : x.roundedTo decimals = .nan) :
    formatNumber x decimals profile = "NaN" := by
  rw [formatNumber_eq, h]
  rfl

theorem not_isNumeral_of_not_isFinite (h : (x.roundedTo decimals).isFinite = false) :
    ¬profile.IsNumeral (min decimals maxDecimals) (formatNumber x decimals profile) := by
  intro hnumeral
  obtain ⟨c, rest, hc, hline⟩ := hnumeral.exists_digit
  cases hr : x.roundedTo decimals with
  | finite s m e => rw [hr] at h; cases h
  | infinity s =>
    rw [formatNumber_of_infinity hr] at hline
    cases s <;> rcases hline with heq | heq <;> cases heq <;> cases hc
  | nan =>
    rw [formatNumber_of_nan hr] at hline
    rcases hline with heq | heq <;> cases heq
    cases hc

/-! ## Calls -/

/-- A call of the filter for a value: with a profile and a count of decimals or without, and with
the value piped in or as the last argument. -/
inductive NumberCall (v : Value) : List Value → Option Value → NumberProfile → Nat → Prop where
  | bare {profile : NumberProfile} :
    NumberProfile.named? "en" = some profile → NumberCall v [] (some v) profile 0
  | profiled {name : Value} {profile : NumberProfile} :
    NumberProfile.named? name.plain = some profile → NumberCall v [name] (some v) profile 0
  | piped {name count : Value} {profile : NumberProfile} {decimals : Nat} :
    NumberProfile.named? name.plain = some profile → count.Spells decimals →
    decimals ≤ maxDecimals → NumberCall v [name, count] (some v) profile decimals
  | explicit {name count : Value} {input : Option Value} {profile : NumberProfile}
      {decimals : Nat} :
    NumberProfile.named? name.plain = some profile → count.Spells decimals →
    decimals ≤ maxDecimals → NumberCall v [name, count, v] input profile decimals

variable {v : Value} {ctx : Context} {arguments : List Value} {input : Option Value}

theorem isBlank_of_asNumber? (h : v.asNumber? = some x) : v.isBlank = false := by
  by_contra hblank
  rcases Value.isBlank_iff.1 (Bool.eq_true_of_not_eq_false hblank) with rfl | rfl <;> cases h

theorem NumberCall.le (h : NumberCall v arguments input profile decimals) :
    decimals ≤ maxDecimals := by
  cases h <;> first | assumption | exact Nat.zero_le _

theorem NumberCall.apply (h : NumberCall v arguments input profile decimals)
    (hx : v.asNumber? = some x) :
    Filter.number.apply ctx arguments input = .ok (formatNumber x decimals profile) := by
  have hblank := isBlank_of_asNumber? hx
  cases h with
  | bare hname => simp [Filter.number, hblank, hname, hx, bind, Except.bind, pure, Except.pure]
  | profiled hname =>
    simp [Filter.number, hblank, hname, hx, bind, Except.bind, pure, Except.pure]
  | piped hname hcount hle =>
    simp [Filter.number, hblank, hname, hx, decimals?_of_spells hcount hle, bind, Except.bind, pure,
      Except.pure]
  | explicit hname hcount hle =>
    simp [Filter.number, hblank, hname, hx, decimals?_of_spells hcount hle, bind, Except.bind, pure,
      Except.pure]

theorem pow_ten_le (decimals : Nat) : 10 ^ min decimals maxDecimals ≤ 2 ^ 53 :=
  (Nat.pow_le_pow_right (by decide) (Nat.min_le_right _ _)).trans (by decide)

/-- A number is printed as a numeral of the profile exactly if it is finite and its product with the
power of ten is below the bound from which products are infinite. From there on an infinity is
printed. A call of the filter prints just this. -/
theorem formatNumber_isNumeral_iff (x : Binary64) (decimals : Nat) (profile : NumberProfile) :
    (profile.IsNumeral (min decimals maxDecimals) (formatNumber x decimals profile) ↔
        x.isFinite = true ∧ |x.toRat| * 10 ^ min decimals maxDecimals < 2 ^ 1024 - 2 ^ 970) ∧
      (x.isFinite = true → 2 ^ 1024 - 2 ^ 970 ≤ |x.toRat| * 10 ^ min decimals maxDecimals →
        formatNumber x decimals profile = "inf" ∨ formatNumber x decimals profile = "-inf") ∧
      ∀ ctx v arguments input, v.asNumber? = some x →
        NumberCall v arguments input profile decimals →
        Filter.number.apply ctx arguments input = .ok (formatNumber x decimals profile) := by
  have hpow : (10 : ℚ) ^ min decimals maxDecimals = (10 ^ min decimals maxDecimals : Nat) :=
    (Nat.cast_pow 10 _).symm
  rw [hpow, ← Binary64.overflowBound]
  have hcases := Binary64.scaled_cases x (Nat.pow_pos (by decide)) (pow_ten_le decimals)
  rw [Binary64.roundedTo_eq] at hcases
  refine ⟨?_, ?_, fun ctx v arguments input hx hcall => hcall.apply hx⟩
  · rcases hcases with ⟨hx, hlt, hr⟩ | ⟨hx, hge, s, hr⟩ | ⟨hx, hr⟩
    · exact iff_of_true (isNumeral_formatNumber hr) ⟨hx, hlt⟩
    · exact iff_of_false (not_isNumeral_of_not_isFinite (by rw [hr]; rfl))
        fun h => not_lt.2 hge h.2
    · exact iff_of_false (not_isNumeral_of_not_isFinite hr)
        fun h => Bool.false_ne_true (hx.symm.trans h.1)
  · intro hfinite hbound
    rcases hcases with ⟨-, hlt, -⟩ | ⟨-, -, s, hr⟩ | ⟨hx, -⟩
    · exact absurd hlt (not_lt.2 hbound)
    · rw [formatNumber_of_infinity hr]
      cases s
      · exact .inl rfl
      · exact .inr rfl
    · exact absurd (hx.symm.trans hfinite) Bool.false_ne_true

/-- A large but finite amount with two decimals. -/
theorem largeAmount_not_isNumeral :
    let x := Binary64.ofScientific false 1 308
    let profile : NumberProfile := ⟨".", ","⟩
    Value.asNumber? (.text "1e308") = some x ∧ x.isFinite = true ∧
      formatNumber x 2 profile = "inf" ∧ ¬profile.IsNumeral 2 (formatNumber x 2 profile) := by
  intro x profile
  have hr : x.roundedTo 2 = .infinity false := by decide +kernel
  refine ⟨by decide +kernel, by decide +kernel, formatNumber_of_infinity hr, ?_⟩
  exact not_isNumeral_of_not_isFinite (by rw [hr]; rfl)

/-! ## Integers -/

/-- An integer that stays exact when it is scaled is printed with its own digits and zeros after the
point. No other text is written so. -/
theorem exists_number_apply {i : Int} (hv : v.IsInteger i)
    (hcall : NumberCall v arguments input profile decimals)
    (hi : i.natAbs * 10 ^ decimals ≤ 2 ^ 53) :
    ∃ text, Filter.number.apply ctx arguments input = .ok text ∧
      ∀ line, profile.Writes (decide (i < 0)) (decimalDigits i.natAbs)
        (List.replicate decimals '0') line ↔ line = text := by
  have hmin : min decimals maxDecimals = decimals := Nat.min_eq_left hcall.le
  have hfactor := Binary64.isWhole_ofNat (pow_ten_le decimals)
  rw [hmin] at hfactor
  have hdigits : i.natAbs ≤ 2 ^ 53 :=
    (Nat.le_mul_of_pos_right _ (Nat.pow_pos (by decide))).trans hi
  obtain ⟨x, s, hx, hwhole, hsign⟩ := exists_asNumber?_of_isInteger hv hdigits
  have hrounded : (x.roundedTo decimals).IsWhole s i.natAbs := by
    have hscaled := (hwhole.mul hfactor hi).round hi
    have hback := hscaled.div hfactor (Nat.pow_pos (by decide)) hdigits
    rw [← Binary64.roundedTo_eq, hmin]
    simpa using hback
  have hfixed := hrounded.fixed_abs (min decimals maxDecimals)
  have hwrites := writes_formatNumber profile hfixed (decimalDigits_ne_nil _)
  rw [hrounded.isNegative, hsign, hmin] at hwrites
  refine ⟨formatNumber x decimals profile, hcall.apply hx, fun line => ?_⟩
  rw [NumberProfile.writes_iff, ← (NumberProfile.writes_iff.1 hwrites).2]
  exact and_iff_right (decimalDigits_ne_nil _)

/-- A negative balance, with white space around it and a profile that groups by points. -/
theorem balance_apply :
    let v : Value := .text " -1234567\n"
    let arguments : List Value := [.text "eu2", .nat 2, v]
    v.IsInteger (-1234567) ∧ NumberCall v arguments none ⟨",", "."⟩ 2 ∧
      (-1234567 : Int).natAbs * 10 ^ 2 ≤ 2 ^ 53 ∧
      Filter.number.apply .empty arguments none = .ok "-1.234.567,00" := by
  intro v arguments
  have hspaced : " -1234567\n".toList = [' '] ++ (toString (-1234567 : Int)).toList ++ ['\n'] := by
    decide +kernel
  have hv : v.IsInteger (-1234567) :=
    .spelled (.text (List.forall_mem_singleton.2 rfl) (List.forall_mem_singleton.2 rfl) hspaced)
  have hcall : NumberCall v arguments none ⟨",", "."⟩ 2 := .explicit rfl .number (by decide)
  obtain ⟨text, hprint, hwrites⟩ := exists_number_apply hv hcall (by decide)
  have htext : "-1.234.567,00" = text :=
    (hwrites _).1 (NumberProfile.writes_iff.2 ⟨by decide, by decide +kernel⟩)
  exact ⟨hv, hcall, by decide, htext ▸ hprint⟩

end FormLetter
