import FormLetter.Proofs.Date.Layout

/-!
# The date filter

An integer of seconds is read as its moment (`asMoment?_of_isInteger`), and what a layout writes of
a moment is read as the fields that the layout shows (`asMoment?_of_write`). So a date that was
printed by a layout stands for the timestamp rounded down to the unit of the layout
(`exists_date_apply`).
-/

namespace FormLetter

open FormLetter.Json FormLetter.Calendar FormLetter.Number FormLetter.Text

variable {v : Value} {n : Int} {m : Moment} {items : List Item} {w : List Char} {ctx : Context}
  {arguments : List Value} {input : Option Value} {format layout : String}
  {parts : List Item × List Item}

/-- A call of the filter for a value, which is piped in or is the last argument. -/
inductive DateCall (format : String) (v : Value) : List Value → Option Value → Prop where
  | piped {f : Value} : f.plain = format → DateCall format v [f] (some v)
  | explicit {f : Value} {input : Option Value} : f.plain = format → DateCall format v [f, v] input

theorem isBlank_of_asMoment? (h : v.asMoment? = some m) : v.isBlank = false := by
  have hnull : Value.asMoment? .null = none := by decide +kernel
  have hempty : Value.asMoment? (.text "") = none := by decide +kernel
  by_contra hblank
  rcases Value.isBlank_iff.1 (Bool.eq_true_of_not_eq_false hblank) with rfl | rfl
  · cases hnull.symm.trans h
  · cases hempty.symm.trans h

/-- The filter prints the moment that its value is read as. -/
theorem DateCall.apply (h : DateCall format v arguments input)
    (hitems : Item.parse? format.toList = some items) (hm : v.asMoment? = some m)
    (hw : m.write items = some w) :
    Filter.date.apply ctx arguments input = .ok (String.ofList w) := by
  have hblank := isBlank_of_asMoment? hm
  cases h with
  | piped hformat =>
    simp [Filter.date, hblank, hformat, hitems, hm, hw, bind, Except.bind, pure, Except.pure]
  | explicit hformat =>
    simp [Filter.date, hblank, hformat, hitems, hm, hw, bind, Except.bind, pure, Except.pure]

theorem asMoment?_of_isInteger (hv : v.IsInteger n) (hn : n.natAbs ≤ 2 ^ 53)
    (hm : Moment.ofTimestamp? n = some m) : v.asMoment? = some m := by
  obtain ⟨x, hx, hfloor⟩ := exists_floor?_of_isInteger hv hn
  rw [Value.asMoment?, hx]
  simp only [hfloor, Option.bind_some, hm]

/-- What a layout writes is no number and not in the notation of RFC 3339, and it is read as the
fields that it shows. -/
theorem asMoment?_of_write (hm : m.IsRegular) (h : parts ∈ layoutParts)
    (hw : m.write (parts.1 ++ parts.2) = some w) :
    Value.asNumber? (.text (String.ofList w)) = none ∧ trim w = w ∧ readInternetTime? w = none ∧
      Value.asMoment? (.text (String.ofList w)) = some (m.truncate (parts.1 ++ parts.2)) := by
  obtain ⟨hnumeral, htime⟩ := other_notations_eq_none hm h hw
  have htrim := trim_layoutParts hm h hw
  have hnumber : Value.asNumber? (.text (String.ofList w)) = none := by
    rw [Value.asNumber?, String.toList_ofList, htrim, hnumeral]
    rfl
  refine ⟨hnumber, htrim, htime, ?_⟩
  rw [Value.asMoment?, hnumber]
  simp only [Value.plain, String.toList_ofList, htrim, htime]
  exact findSome?_layouts hm h hw

theorem write_timestamp (m : Moment) :
    m.write [bare .timestamp] = some (toString m.timestamp).toList := by
  rw [toList_toString_int]
  simp [Moment.write, bare, Item.write, NumericField.write, padded]

theorem exists_ofTimestamp? (hyear : 0 ≤ (Date.ofDayNumber (n / 86400)).year)
    (hyear' : (Date.ofDayNumber (n / 86400)).year ≤ 9999) :
    ∃ m, Moment.ofTimestamp? n = some m ∧ m.IsRegular ∧ n.natAbs ≤ 2 ^ 53 := by
  obtain ⟨m, hm⟩ : ∃ m, Moment.ofTimestamp? n = some m := by
    rw [Moment.ofTimestamp?, Int.fdiv_eq_ediv_of_nonneg _ (by decide)]
    exact ⟨_, if_pos ⟨le_trans (by decide) hyear, hyear'.trans (by decide)⟩⟩
  rw [← (Moment.of_ofTimestamp? hm).1] at hyear hyear'
  exact ⟨m, hm, Moment.isRegular_of_ofTimestamp? hm hyear hyear',
    (natAbs_le_of_ofTimestamp? hm hyear hyear').trans (by decide)⟩

/-- A date that a layout printed is read as no number, not by RFC 3339, and as the timestamp rounded
down to the unit of the layout, not as another one. -/
theorem exists_date_apply (hv : v.IsInteger n) (hyear : 0 ≤ (Date.ofDayNumber (n / 86400)).year)
    (hyear' : (Date.ofDayNumber (n / 86400)).year ≤ 9999)
    (hlayout : layout ∈ dateTimeLayouts ++ dateLayouts) :
    ∃ items text, Item.parse? layout.toList = some items ∧
      (∀ ctx arguments input, DateCall layout v arguments input →
        Filter.date.apply ctx arguments input = .ok text) ∧
      Value.asNumber? (.text text) = none ∧ readInternetTime? (trim text.toList) = none ∧
      ∀ ctx arguments input, DateCall "%s" (.text text) arguments input →
        Filter.date.apply ctx arguments input = .ok (toString (n - n % granularity items)) := by
  obtain ⟨m, hm, hregular, hsmall⟩ := exists_ofTimestamp? hyear hyear'
  obtain ⟨parts, hparts, hitems⟩ := exists_parts_of_mem_layouts hlayout
  obtain ⟨w, hw⟩ := exists_write_of_areExact hregular (areExact_layoutParts hparts).2
  obtain ⟨hnumber, htrim, htime, hmoment⟩ := asMoment?_of_write hregular hparts hw
  refine ⟨parts.1 ++ parts.2, String.ofList w, hitems, fun ctx arguments input hcall => ?_, hnumber,
    ?_, fun ctx arguments input hcall => ?_⟩
  · exact hcall.apply hitems (asMoment?_of_isInteger hv hsmall hm) hw
  · rw [String.toList_ofList, htrim, htime]
  · have hpattern : Item.parse? "%s".toList = some [bare .timestamp] := by decide +kernel
    rw [hcall.apply hpattern hmoment (write_timestamp _), timestamp_truncate hparts hm,
      String.ofList_toList]

/-- The leap day of the year 0, printed without its seconds. -/
theorem leapDay_date_apply :
    let v : Value := .number (.integer (-62162076304))
    let layout := "%d.%m.%Y %H:%M"
    v.IsInteger (-62162076304) ∧
      Date.ofDayNumber (-62162076304 / 86400) = ⟨0, 2, 29⟩ ∧
      layout ∈ dateTimeLayouts ++ dateLayouts ∧
      ∃ text, Filter.date.apply .empty [.text layout] (some v) = .ok text ∧
        Filter.date.apply .empty [.text "%s", .text text] none = .ok "-62162076360" := by
  intro v layout
  have hv : v.IsInteger (-62162076304) := .spelled .number
  have hdate : Date.ofDayNumber (-62162076304 / 86400) = ⟨0, 2, 29⟩ := by decide
  have hlayout : layout ∈ dateTimeLayouts ++ dateLayouts := by decide
  obtain ⟨items, text, hitems, hprint, -, -, hread⟩ :=
    exists_date_apply hv (by decide) (by decide) hlayout
  have hparse : Item.parse? layout.toList = some (dottedDate ++ .blank ' ' :: clock) := by
    decide +kernel
  cases hparse.symm.trans hitems
  exact ⟨hv, hdate, hlayout, text, hprint _ _ _ (.piped rfl), hread _ _ _ (.explicit rfl)⟩

end FormLetter
