import FormLetter.Proofs.Context.BraceFree
import FormLetter.Proofs.Date.Pattern
import FormLetter.Proofs.Filter.Number
import FormLetter.Proofs.Filter.Registration

/-!
# Filters that bring no marker into a text

A filter is calm if on data without braces the texts that it makes of calm ones are calm. The
built-in filters are (`isCalm_builtin`). Of these `date` writes its pattern, which is calm, and for
its fields only characters that are no brace, but for what `twoDigits` makes of a number past 99,
which a digit follows.
-/

namespace FormLetter

open FormLetter.Calendar FormLetter.Json FormLetter.Number FormLetter.Text

/-- With data without braces and calm texts as its values, the filter makes calm text. -/
def Filter.IsCalm (f : Filter) : Prop :=
  ∀ ctx arguments input text, ctx.IsBraceFree → (∀ v ∈ arguments, Calm v.plain.toList) →
    (∀ v, input = some v → Calm v.plain.toList) → f.apply ctx arguments input = .ok text →
    Calm text.toList

def Registry.IsCalm (r : Registry) : Prop := ∀ name f, r.get? name = some f → f.IsCalm

namespace Calendar

def Item.isCalm : Item → Bool
  | .literal c | .blank c => c != '{'
  | _ => true

variable {m : Moment} {item : Item} {items : List Item} {pad : Pad} {w cs : List Char}

theorem calm_decimalDigits (n : Nat) : Calm (decimalDigits n) :=
  calm_of_not_mem (not_mem_decimalDigits n)

theorem calm_twoDigits (pad : Pad) (n : Nat) : Calm (twoDigits pad n) := by
  obtain ⟨hones, -⟩ := digit_ofNat (Nat.mod_lt n (by decide : 0 < 10))
  have hone : Calm [Char.ofNat ('0'.toNat + n % 10)] :=
    calm_of_forall (p := isDigit) (by decide) (List.forall_mem_singleton.2 hones)
  have htens : ∀ tens, Calm [tens, Char.ofNat ('0'.toNat + n % 10)] := fun tens =>
    .cons (fun _ => ⟨_, [], rfl, by rw [isCalming, hones, Bool.or_true]⟩) hone
  unfold twoDigits
  split
  · cases pad with
    | none => exact hone
    | zero => exact htens '0'
    | space => exact htens ' '
  · exact htens _

theorem calm_padded (width : Nat) (plus : Bool) (pad : Pad) (n : Int) :
    Calm (padded width plus pad n) := by
  have hdigits := calm_decimalDigits n.natAbs
  have hfill : ∀ (k : Nat) (c : Char), c ≠ '{' → Calm (List.replicate k c) := fun k c hc =>
    calm_of_not_mem fun hm => hc (List.eq_of_mem_replicate hm).symm
  have hsign : Calm (if n < 0 then ['-'] else if plus then ['+'] else []) := by
    split_ifs <;> exact calm_of_not_mem (by decide)
  cases pad with
  | none => exact hsign.append hdigits
  | zero => exact hsign.append ((hfill _ '0' (by decide)).append hdigits)
  | space => exact (hfill _ ' ' (by decide)).append (hsign.append hdigits)

theorem calm_yearText (pad : Pad) (year : Int) : Calm (yearText pad year) := by
  rw [yearText]
  split <;> exact calm_padded ..

theorem NumericField.calm_write (m : Moment) (pad : Pad) (field : NumericField) :
    Calm (field.write m pad) := by
  cases field <;> first
    | exact calm_twoDigits ..
    | exact calm_decimalDigits _
    | exact calm_padded ..
    | exact calm_yearText ..

theorem calm_fractionText (nanosecond digits : Nat) : Calm (fractionText nanosecond digits) :=
  calm_of_forall (p := isDigit) (by decide) fun _ => isDigit_of_mem_zeroPadded

theorem calm_shortFraction (nanosecond : Nat) : Calm (shortFraction nanosecond) := by
  have hpoint : ∀ digits, Calm ('.' :: fractionText nanosecond digits) := fun digits =>
    .cons (fun h => absurd h (by decide)) (calm_fractionText nanosecond digits)
  rw [shortFraction]
  split_ifs
  · exact .nil
  · exact hpoint 3
  · exact hpoint 6
  · exact hpoint 9

theorem calm_offsetHoursText (offset : Int) : Calm (offsetHoursText offset) :=
  .cons (fun h => by split at h <;> cases h) (calm_twoDigits ..)

theorem calm_offsetText {separator : List Char} (h : Calm separator) (offset : Int) :
    Calm (offsetText separator offset) :=
  ((calm_offsetHoursText offset).append h).append (calm_twoDigits ..)

theorem calm_cons_twoDigits {c : Char} (h : c ≠ '{') (n : Nat) : Calm (c :: twoDigits .zero n) :=
  .cons (fun hc => absurd hc h) (calm_twoDigits ..)

theorem calm_internetTimeText (m : Moment) : Calm (internetTimeText m) :=
  ((((((calm_yearText ..).append (calm_cons_twoDigits (by decide) _)).append
    (calm_cons_twoDigits (by decide) _)).append (calm_cons_twoDigits (by decide) _)).append
    (calm_cons_twoDigits (by decide) _)).append (calm_cons_twoDigits (by decide) _)).append
    (calm_shortFraction _) |>.append (calm_offsetText (calm_of_not_mem (by decide)) _)

theorem calm_name {names : List String} (h : ∀ s ∈ names, '{' ∉ s.toList) (i : Nat) :
    '{' ∉ ((names[i]?).getD "").toList := by
  cases hi : names[i]? with
  | none => decide
  | some s => exact h s (List.mem_of_getElem? hi)

theorem TextField.calm_write {field : TextField} (h : field.write m = some w) : Calm w := by
  have hmonth : '{' ∉ m.date.monthName := calm_name (by decide) _
  have hweekday : '{' ∉ m.date.weekdayName := calm_name (by decide) _
  have hcolon : Calm [':'] := calm_of_not_mem (by decide)
  cases field with
  | shortMonth =>
    cases h
    exact calm_of_not_mem fun hm => hmonth (List.mem_of_mem_take hm)
  | longMonth =>
    cases h
    exact calm_of_not_mem hmonth
  | shortWeekday =>
    cases h
    exact calm_of_not_mem fun hm => hweekday (List.mem_of_mem_take hm)
  | longWeekday =>
    cases h
    exact calm_of_not_mem hweekday
  | lowerHalfDay =>
    cases h
    split <;> exact calm_of_not_mem (by decide)
  | upperHalfDay =>
    cases h
    split <;> exact calm_of_not_mem (by decide)
  | fraction =>
    cases h
    exact calm_shortFraction _
  | fractionDigits point digits =>
    cases h
    refine Calm.append ?_ (calm_fractionText ..)
    split <;> exact calm_of_not_mem (by decide)
  | zoneName | offsetColon =>
    cases h
    exact calm_offsetText hcolon _
  | offset =>
    cases h
    exact calm_offsetText .nil _
  | offsetSeconds =>
    cases h
    exact (calm_offsetText hcolon _).append (calm_of_not_mem (by decide))
  | offsetHours =>
    cases h
    exact calm_offsetHoursText _
  | anyOffset => cases h
  | internetTime =>
    cases h
    exact calm_internetTimeText m

theorem Item.calm_write (hitem : item.isCalm = true) (h : item.write m = some w) : Calm w := by
  cases item with
  | literal c =>
    cases h
    exact calm_of_forall (p := (· != '{')) rfl (List.forall_mem_singleton.2 hitem)
  | blank c =>
    cases h
    exact calm_of_forall (p := (· != '{')) rfl (List.forall_mem_singleton.2 hitem)
  | numeric field pad =>
    cases h
    exact field.calm_write m pad
  | text field => exact TextField.calm_write h

theorem calm_write (hitems : ∀ item ∈ items, item.isCalm = true) (h : m.write items = some w) :
    Calm w := by
  induction items generalizing w with
  | nil =>
    cases h
    exact .nil
  | cons item items ih =>
    obtain ⟨front, back, hfront, hback, rfl⟩ := Moment.write_cons_eq_some_iff.1 h
    rw [List.forall_mem_cons] at hitems
    exact (Item.calm_write hitems.1 hfront).append (ih hitems.2 hback)

theorem isCalm_of_letterItems? {c : Char} (h : letterItems? c = some items) :
    ∀ item ∈ items, item.isCalm = true := by
  rw [← List.all_eq_true]
  unfold letterItems? at h
  split at h <;> cases h <;> rfl

theorem readSpecifier_calm {rest : List Char} (h : readSpecifier cs = some (items, rest)) :
    (∀ item ∈ items, item.isCalm = true) ∧ rest <:+ cs := by
  unfold readSpecifier at h
  repeat' split at h
  all_goals try cases h
  all_goals try exact ⟨by rw [← List.all_eq_true]; rfl, by simp [List.suffix_cons_iff]⟩
  rename_i c cs _ _
  obtain ⟨letters, hletters, heq⟩ := Option.map_eq_some_iff.1 h
  cases heq
  exact ⟨isCalm_of_letterItems? hletters, List.suffix_cons _ _⟩

/-- A pattern writes calm text. What is calming in the pattern is written as it stands. -/
theorem calm_write_of_parse? (h : Calm cs) (hitems : Item.parse? cs = some items)
    (hw : m.write items = some w) :
    Calm w ∧ ∀ d ds, cs = d :: ds → isCalming d = true → ∃ es, w = d :: es := by
  fun_induction Item.parse? cs generalizing items w with
  | case1 =>
    cases hitems
    cases hw
    exact ⟨.nil, fun d ds hds => by cases hds⟩
  | case2 cs specified rest hspecified ih =>
    obtain ⟨others, hothers, rfl⟩ := Option.map_eq_some_iff.1 hitems
    obtain ⟨front, back, hfront, hback, rfl⟩ := Moment.write_append_eq_some_iff.1 hw
    obtain ⟨hcalm, hsuffix⟩ := readSpecifier_calm hspecified
    refine ⟨(calm_write hcalm hfront).append (ih (h.tail.of_suffix hsuffix) hothers hback).1, ?_⟩
    rintro d ds ⟨⟩ hd
    exact absurd hd (by decide)
  | case3 => cases hitems
  | case4 c cs hc ih =>
    obtain ⟨others, hothers, rfl⟩ := Option.map_eq_some_iff.1 hitems
    obtain ⟨front, back, hfront, hback, rfl⟩ := Moment.write_cons_eq_some_iff.1 hw
    obtain ⟨hcalm, hnext⟩ := ih h.tail hothers hback
    have hfront : front = [c] := by
      split at hfront <;> exact (Option.some.inj hfront).symm
    rw [hfront]
    refine ⟨h.image (fun hne hm => hne (List.mem_singleton.1 hm).symm) (fun he => by rw [he])
      (fun d ds hcs hd => hnext d ds hcs hd) hcalm, ?_⟩
    rintro d ds ⟨⟩ -
    exact ⟨back, rfl⟩

end Calendar

/-! ## Numbers -/

theorem not_mem_groupThousands {separator digits : List Char} (hs : '{' ∉ separator)
    (hd : '{' ∉ digits) : '{' ∉ groupThousands separator digits := by
  induction digits with
  | nil => exact List.not_mem_nil
  | cons d digits ih =>
    rw [List.mem_cons, not_or] at hd
    have hrest := ih hd.2
    rw [groupThousands_cons]
    split_ifs <;> simp [hd.1, hs, hrest]

theorem not_mem_of_named? {name : String} {profile : NumberProfile}
    (h : NumberProfile.named? name = some profile) :
    '{' ∉ profile.decimal.toList ∧ '{' ∉ profile.thousands.toList := by
  unfold NumberProfile.named? at h
  split_ifs at h <;> cases h <;> decide

theorem calm_formatNumber {name : String} {profile : NumberProfile}
    (h : NumberProfile.named? name = some profile) (x : Binary64) (decimals : Nat) :
    Calm (formatNumber x decimals profile).toList := by
  refine calm_of_not_mem ?_
  cases hr : x.roundedTo decimals with
  | infinity s =>
    rw [formatNumber_of_infinity hr]
    cases s <;> decide
  | nan =>
    rw [formatNumber_of_nan hr]
    decide
  | finite s m e =>
    have habs : (x.roundedTo decimals).abs.isFinite = true := by rw [hr]; rfl
    have hfixed := Binary64.isFixed_fixed habs (min decimals maxDecimals)
    have hwhole : '{' ∉ ((x.roundedTo decimals).abs.fixed (min decimals maxDecimals)).1 :=
      fun hm => absurd (hfixed.digits _ (List.mem_append_left _ hm)) (by decide)
    have hfraction : '{' ∉ ((x.roundedTo decimals).abs.fixed (min decimals maxDecimals)).2 :=
      fun hm => absurd (hfixed.digits _ (List.mem_append_right _ hm)) (by decide)
    obtain ⟨hdecimal, hthousands⟩ := not_mem_of_named? h
    rw [formatNumber_eq, String.toList_ofList, List.mem_append, List.mem_append, not_or, not_or]
    refine ⟨⟨?_, not_mem_groupThousands hthousands hwhole⟩, ?_⟩
    · split <;> decide
    · split
      · exact List.not_mem_nil
      · rw [List.mem_append, not_or]
        exact ⟨hdecimal, hfraction⟩

namespace Filter

theorem isCalm_rewriting {name : String} {f : String → String}
    (hf : ∀ s, Calm s.toList → Calm (f s).toList) : (rewriting name f).IsCalm := by
  intro ctx arguments input text _ harguments hinput h
  cases h
  split
  · rename_i v hv
    refine hf _ ?_
    rcases Option.or_eq_some_iff.1 hv with hv | ⟨-, hv⟩
    · exact harguments v (List.mem_of_head? hv)
    · exact hinput v hv
  · exact .nil

theorem isCalm_upper : upper.IsCalm := isCalm_rewriting fun _ => calm_upper

theorem isCalm_lower : lower.IsCalm := isCalm_rewriting fun _ => calm_lower

theorem exists_write_of_date {ctx : Context} {arguments : List Value} {input : Option Value}
    {text : String} (h : date.apply ctx arguments input = .ok text) :
    text = "" ∨ ∃ format ∈ arguments, ∃ (items : List Item) (m : Moment) (w : List Char),
      Item.parse? format.plain.toList = some items ∧ m.write items = some w ∧
        text = String.ofList w := by
  simp only [date, bind, Except.bind, pure, Except.pure, throw, throwThe, MonadExceptOf.throw] at h
  repeat' split at h
  all_goals try cases h
  all_goals try exact .inl rfl
  all_goals exact .inr ⟨_, List.mem_cons_self .., _, _, _, ‹Item.parse? _ = some _›,
    ‹Moment.write _ _ = some _›, rfl⟩

theorem isCalm_date : date.IsCalm := by
  intro ctx arguments input text _ harguments hinput h
  rcases exists_write_of_date h with rfl | ⟨format, hformat, items, m, w, hitems, hw, rfl⟩
  · exact .nil
  · rw [String.toList_ofList]
    exact (calm_write_of_parse? (harguments format hformat) hitems hw).1

theorem exists_formatNumber_of_number {ctx : Context} {arguments : List Value}
    {input : Option Value} {text : String} (h : number.apply ctx arguments input = .ok text) :
    text = "" ∨ ∃ name x decimals profile, NumberProfile.named? name = some profile ∧
      text = formatNumber x decimals profile := by
  simp only [number, bind, Except.bind, pure, Except.pure, throw, throwThe,
    MonadExceptOf.throw] at h
  repeat' split at h
  all_goals try cases h
  all_goals try exact .inl rfl
  all_goals exact .inr ⟨_, _, _, _, ‹NumberProfile.named? _ = some _›, rfl⟩

theorem isCalm_number : number.IsCalm := by
  intro ctx arguments input text _ harguments hinput h
  rcases exists_formatNumber_of_number h with rfl | ⟨name, x, decimals, profile, hname, rfl⟩
  · exact .nil
  · exact calm_formatNumber hname x decimals

end Filter

theorem Registry.IsCalm.registerAll {r : Registry} (h : r.IsCalm) {fs : List Filter}
    (hfs : ∀ f ∈ fs, f.IsCalm) : (r.registerAll fs).IsCalm := by
  intro name f hf
  rw [get?_registerAll, Option.or_eq_some_iff] at hf
  rcases hf with hf | ⟨-, hf⟩
  · exact hfs f (List.mem_reverse.1 (List.mem_of_find?_eq_some hf))
  · exact h name f hf

theorem Registry.isCalm_empty : Registry.empty.IsCalm := by
  intro name f hf
  cases hf

theorem Registry.isCalm_builtin : Registry.builtin.IsCalm := by
  rw [builtin_eq]
  refine isCalm_empty.registerAll fun f hf => ?_
  simp only [builtinFilters, List.mem_cons, List.not_mem_nil, or_false] at hf
  rcases hf with rfl | rfl | rfl | rfl
  · exact Filter.isCalm_upper
  · exact Filter.isCalm_lower
  · exact Filter.isCalm_date
  · exact Filter.isCalm_number

end FormLetter
