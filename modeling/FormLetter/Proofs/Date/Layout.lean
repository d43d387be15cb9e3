import FormLetter.Filter.Date
import FormLetter.Proofs.Date.Pattern

/-!
# The layouts of dates

A layout is a date with dashes or dots and what follows it: nothing, or a blank or a `T` and a time
of day. What one layout writes no other layout reads (`readItems_of_ne`), so it does not matter in
which order they are tried. Nor is it a numeral or in the notation of RFC 3339
(`other_notations_eq_none`), so it is read as what was written (`findSome?_layouts`), which is the
moment rounded down to the unit of the layout (`timestamp_truncate`).
-/

namespace FormLetter.Calendar

open FormLetter.Number FormLetter.Text

def dashedDate : List Item :=
  [zeroed .year, .literal '-', zeroed .month, .literal '-', zeroed .day]

def dottedDate : List Item :=
  [zeroed .day, .literal '.', zeroed .month, .literal '.', zeroed .year]

def clock : List Item := [zeroed .hour, .literal ':', zeroed .minute]

def seconds : List Item := [.literal ':', zeroed .second]

def timeParts : List (List Item) :=
  [[], .blank ' ' :: clock, .blank ' ' :: clock ++ seconds, .literal 'T' :: clock ++ seconds]

/-- The layouts in the order in which they are tried, each as a date and what follows it. -/
def layoutParts : List (List Item × List Item) :=
  [(dashedDate, .blank ' ' :: clock ++ seconds), (dashedDate, .blank ' ' :: clock),
    (dashedDate, .literal 'T' :: clock ++ seconds), (dottedDate, .blank ' ' :: clock ++ seconds),
    (dottedDate, .blank ' ' :: clock), (dashedDate, []), (dottedDate, [])]

theorem map_parse?_layouts :
    (dateTimeLayouts ++ dateLayouts).map (fun layout => Item.parse? layout.toList) =
      layoutParts.map fun parts => some (parts.1 ++ parts.2) := by
  decide +kernel

theorem exists_parts_of_mem_layouts {layout : String}
    (h : layout ∈ dateTimeLayouts ++ dateLayouts) :
    ∃ parts ∈ layoutParts, Item.parse? layout.toList = some (parts.1 ++ parts.2) := by
  have hmem := List.mem_map_of_mem (f := fun layout => Item.parse? layout.toList) h
  rw [map_parse?_layouts] at hmem
  obtain ⟨parts, hparts, heq⟩ := List.mem_map.1 hmem
  exact ⟨parts, hparts, heq.symm⟩

theorem mem_of_mem_layoutParts {parts : List Item × List Item} (h : parts ∈ layoutParts) :
    (parts.1 = dashedDate ∨ parts.1 = dottedDate) ∧ parts.2 ∈ timeParts := by
  revert parts
  decide

theorem areExact_layoutParts {parts : List Item × List Item} (h : parts ∈ layoutParts) :
    Item.areExact parts.1 = true ∧ Item.areExact (parts.1 ++ parts.2) = true := by
  revert parts
  decide

variable {places n low high : Nat} {m : Moment} {r : Reading} {parts parts' : List Item × List Item}
  {time time' more : List Item} {w cs : List Char}

theorem write_dashedDate (m : Moment) : m.write dashedDate =
    some (yearText .zero m.date.year ++ '-' :: (twoDigits .zero m.date.month ++
      '-' :: twoDigits .zero m.date.day)) := by
  simp [Moment.write, dashedDate, zeroed, Item.write, NumericField.write]

theorem write_dottedDate (m : Moment) : m.write dottedDate =
    some (twoDigits .zero m.date.day ++ '.' :: (twoDigits .zero m.date.month ++
      '.' :: yearText .zero m.date.year)) := by
  simp [Moment.write, dottedDate, zeroed, Item.write, NumericField.write]

theorem write_clock (m : Moment) : m.write clock =
    some (twoDigits .zero m.hour ++ ':' :: twoDigits .zero m.minute) := by
  simp [Moment.write, clock, zeroed, Item.write, NumericField.write]

theorem write_seconds (m : Moment) : m.write seconds = some (':' :: twoDigits .zero m.second) := by
  simp [Moment.write, seconds, zeroed, Item.write, NumericField.write]

theorem readItems_dashedDate (hm : m.IsRegular) (hw : m.write dottedDate = some w) :
    readItems (dashedDate ++ more) r (w ++ cs) = none := by
  obtain ⟨-, -, hday, -⟩ := hm.isSpelled
  cases (write_dottedDate m).symm.trans hw
  rw [List.append_assoc]
  set rest := '.' :: _ ++ cs
  have hyear : Reading.item r (twoDigits .zero m.date.day ++ rest) (zeroed .year) =
      some ({ r with year := some (m.date.day : Int) }, rest) := by
    show (readYear (trimStart _)).map _ = _
    rw [hday.trimStart two_pos, readYear_append (hday.ne_nil two_pos) hday.digits
      (hday.length.trans_le (by decide)) (.inr ?_), hday.value]
    · rfl
    · rintro c ⟨⟩
      rfl
  rw [dashedDate, List.cons_append, readItems_cons, hyear]
  rfl

/-- The third digit of the year stands where a dot is expected. -/
theorem readItems_dottedDate (hm : m.IsRegular) (hw : m.write dashedDate = some w) :
    readItems (dottedDate ++ more) r (w ++ cs) = none := by
  obtain ⟨hyear, -⟩ := hm.isSpelled
  cases (write_dashedDate m).symm.trans hw
  rw [List.append_assoc]
  set rest := '-' :: _ ++ cs
  match yearText .zero m.date.year, hyear with
  | [a, b, c, d], hyear =>
    have hdigits : ∀ e ∈ [a, b], isDigit e = true := fun e he =>
      hyear.digits e (List.mem_append_left [c, d] he)
    have hdot : ∀ e ∈ (c :: d :: rest).head?, e ≠ '.' := by
      rintro e ⟨⟩ rfl
      cases hyear.digits '.' (by simp)
    have hpair : readDigits 2 ([a, b, c, d] ++ rest) =
        some (digitsValue [a, b], c :: d :: rest) :=
      readDigits_append (List.cons_ne_nil a _) hdigits le_rfl (.inl rfl)
    rw [dottedDate, List.cons_append, readItems_cons]
    show ((readBetween 1 31 (trimStart ([a, b, c, d] ++ rest))).map _).bind _ = none
    rw [hyear.trimStart (by decide), readBetween, hpair]
    by_cases hbounds : 1 ≤ digitsValue [a, b] ∧ digitsValue [a, b] ≤ 31
    · simp only [Option.bind_eq_bind, Option.bind_some, if_pos hbounds, Option.map_some]
      exact readItems_literal_of_ne hdot _ _
    · simp only [Option.bind_eq_bind, Option.bind_some, if_neg hbounds, Option.map_none,
        Option.bind_none]

/-! ## Times of day -/

/-- What follows a date is read only by the part of a layout that wrote it: another separator is
not there, or the seconds are missing or left over. -/
theorem readItems_time_of_ne (hm : m.IsRegular) (htime : time ∈ timeParts)
    (htime' : time' ∈ timeParts) (hne : time' ≠ time) (hw : m.write time = some w) :
    readItems time' r w = none := by
  simp only [timeParts, List.mem_cons, List.not_mem_nil, or_false] at htime htime'
  rcases htime with rfl | rfl | rfl | rfl
  · cases hw
    rcases htime' with rfl | rfl | rfl | rfl
    · exact absurd rfl hne
    · rfl
    · rfl
    · rfl
  · obtain ⟨_, rest, ⟨⟩, -, rfl⟩ := Moment.write_cons_eq_some_iff.1 hw
    rcases htime' with rfl | rfl | rfl | rfl
    · rfl
    · exact absurd rfl hne
    · have happend := readItems_append hm (by decide) hw r seconds []
      rwa [List.append_nil] at happend
    · rfl
  · obtain ⟨front, back, hfront, hback, rfl⟩ := Moment.write_append_eq_some_iff.1 hw
    cases (write_seconds m).symm.trans hback
    have happend := readItems_append hm (by decide) hfront r [] (':' :: twoDigits .zero m.second)
    obtain ⟨_, rest, ⟨⟩, -, rfl⟩ := Moment.write_cons_eq_some_iff.1 hfront
    rcases htime' with rfl | rfl | rfl | rfl
    · rfl
    · rwa [List.append_nil] at happend
    · exact absurd rfl hne
    · rfl
  · obtain ⟨_, rest, ⟨⟩, -, rfl⟩ := Moment.write_cons_eq_some_iff.1 hw
    rcases htime' with rfl | rfl | rfl | rfl
    · rfl
    · rfl
    · rfl
    · exact absurd rfl hne

/-- What one layout writes no other layout reads. -/
theorem readItems_of_ne (hm : m.IsRegular) (h : parts ∈ layoutParts) (h' : parts' ∈ layoutParts)
    (hne : parts' ≠ parts) (hw : m.write (parts.1 ++ parts.2) = some w) :
    readItems (parts'.1 ++ parts'.2) .empty w = none := by
  obtain ⟨hdate, htime⟩ := mem_of_mem_layoutParts h
  obtain ⟨hdate', htime'⟩ := mem_of_mem_layoutParts h'
  obtain ⟨hexact, -⟩ := areExact_layoutParts h
  obtain ⟨date, time⟩ := parts
  obtain ⟨date', time'⟩ := parts'
  obtain ⟨front, back, hfront, hback, rfl⟩ := Moment.write_append_eq_some_iff.1 hw
  by_cases hsame : date' = date
  · subst hsame
    rw [readItems_append hm hexact hfront]
    exact readItems_time_of_ne hm htime htime' (fun heq => hne (congrArg _ heq)) hback
  · rcases hdate with rfl | rfl <;> rcases hdate' with rfl | rfl
    · exact absurd rfl hsame
    · exact readItems_dottedDate hm hfront
    · exact readItems_dashedDate hm hfront
    · exact absurd rfl hsame

theorem exponentPart?_of_ne {c : Char} (h : c ≠ 'e' ∧ c ≠ 'E') (cs : List Char) :
    exponentPart? (c :: cs) = none :=
  if_neg (by rintro (he | he); exacts [h.1 he, h.2 he])

theorem parse?_dashed (hne : w ≠ []) (hw : ∀ c ∈ w, isDigit c = true) (cs : List Char) :
    Numeral.parse? (w ++ '-' :: cs) = none := by
  have hrun : run isDigit (w ++ '-' :: cs) = (w, '-' :: cs) := run_append_cons hw rfl
  obtain ⟨htake, hdrop⟩ := Prod.mk.inj hrun
  rw [Numeral.parse?, takeSign_of_isDigit (head?_append_of_forall hne hw)]
  simp only [htake, hdrop]
  simp [exponentPart?_of_ne (show '-' ≠ 'e' ∧ '-' ≠ 'E' by decide)]

theorem parse?_dotted {v : List Char} (hne : w ≠ []) (hw : ∀ c ∈ w, isDigit c = true)
    (hv : ∀ c ∈ v, isDigit c = true) (cs : List Char) :
    Numeral.parse? (w ++ '.' :: (v ++ '.' :: cs)) = none := by
  have hrun : run isDigit (w ++ '.' :: (v ++ '.' :: cs)) = (w, '.' :: (v ++ '.' :: cs)) :=
    run_append_cons hw rfl
  have hrun' : run isDigit (v ++ '.' :: cs) = (v, '.' :: cs) := run_append_cons hv rfl
  obtain ⟨htake, hdrop⟩ := Prod.mk.inj hrun
  obtain ⟨htake', hdrop'⟩ := Prod.mk.inj hrun'
  rw [Numeral.parse?, takeSign_of_isDigit (head?_append_of_forall hne hw)]
  simp only [htake, hdrop, htake', hdrop']
  simp [exponentPart?_of_ne (show '.' ≠ 'e' ∧ '.' ≠ 'E' by decide)]

theorem IsSpelled.readExactly (h : IsSpelled places n w) (cs : List Char) :
    readExactly places (w ++ cs) = some (n, cs) := by
  rw [Calendar.readExactly, List.take_left' h.length, List.drop_left' h.length, h.value]
  exact if_pos ⟨h.length, List.all_eq_true.2 h.digits⟩

theorem IsSpelled.readPair (h : IsSpelled 2 n w) (hn : low ≤ n ∧ n ≤ high) (cs : List Char) :
    readPair low high (w ++ cs) = some (n, cs) := by
  rw [Calendar.readPair, h.readExactly]
  exact if_pos hn

theorem readChar_self (c : Char) (cs : List Char) : readChar c (c :: cs) = some cs := if_pos rfl

theorem readInternetTime?_dotted (hm : m.IsRegular) (hw : m.write dottedDate = some w) :
    readInternetTime? (w ++ cs) = none := by
  obtain ⟨-, -, hday, -⟩ := hm.isSpelled
  cases (write_dottedDate m).symm.trans hw
  match twoDigits .zero m.date.day, hday.length with
  | [a, b], _ =>
    have hyear : readExactly 4 (a :: b :: '.' :: (twoDigits .zero m.date.month ++
        '.' :: yearText .zero m.date.year ++ cs)) = none := by
      refine if_neg fun h => ?_
      have hdot := List.all_eq_true.1 h.2 '.' (by simp)
      cases hdot
    rw [readInternetTime?]
    exact congrArg (Option.bind · _) hyear

theorem write_cons_clock {item : Item} {c : Char} (h : item.write m = some [c]) :
    m.write (item :: clock) =
      some (c :: (twoDigits .zero m.hour ++ ':' :: twoDigits .zero m.minute)) :=
  Moment.write_cons_eq_some_iff.2 ⟨[c], _, h, write_clock m, rfl⟩

theorem exists_of_write_time (htime : time ∈ timeParts) (hw : m.write time = some w) :
    w = [] ∨ ∃ c rest,
      w = c :: (twoDigits .zero m.hour ++ ':' :: (twoDigits .zero m.minute ++ rest)) ∧
        (rest = [] ∨ rest = ':' :: twoDigits .zero m.second) := by
  simp only [timeParts, List.mem_cons, List.not_mem_nil, or_false] at htime
  rcases htime with rfl | rfl | rfl | rfl
  · cases hw
    exact .inl rfl
  · cases (write_cons_clock rfl).symm.trans hw
    exact .inr ⟨' ', [], by simp, .inl rfl⟩
  · obtain ⟨front, back, hfront, hback, rfl⟩ := Moment.write_append_eq_some_iff.1 hw
    cases (write_cons_clock rfl).symm.trans hfront
    cases (write_seconds m).symm.trans hback
    exact .inr ⟨' ', _, by simp, .inr rfl⟩
  · obtain ⟨front, back, hfront, hback, rfl⟩ := Moment.write_append_eq_some_iff.1 hw
    cases (write_cons_clock rfl).symm.trans hfront
    cases (write_seconds m).symm.trans hback
    exact .inr ⟨'T', _, by simp, .inr rfl⟩

theorem bind_eq_none_of_eq_some {α β : Type} {x : Option α} {a : α} {f : α → Option β}
    (hx : x = some a) (h : f a = none) : x >>= f = none := by
  rw [hx]
  exact h

/-- A date with dashes lacks what follows it: a time, its seconds, or the offset. -/
theorem readInternetTime?_dashed (hm : m.IsRegular) (hw : m.write dashedDate = some w)
    (htime : time ∈ timeParts) (hcs : m.write time = some cs) :
    readInternetTime? (w ++ cs) = none := by
  obtain ⟨hmonthLe, hdayLe⟩ := Date.month_and_day_of_of? hm.date
  obtain ⟨hyear, hmonth, hday, hhour, hminute, hsecond⟩ := hm.isSpelled
  cases (write_dashedDate m).symm.trans hw
  rw [List.append_assoc, List.cons_append, List.append_assoc, List.cons_append]
  refine bind_eq_none_of_eq_some (hyear.readExactly _) ?_
  refine bind_eq_none_of_eq_some (readChar_self '-' _) ?_
  refine bind_eq_none_of_eq_some (hmonth.readPair hmonthLe _) ?_
  refine bind_eq_none_of_eq_some (readChar_self '-' _) ?_
  refine bind_eq_none_of_eq_some (hday.readPair hdayLe _) ?_
  rcases exists_of_write_time htime hcs with rfl | ⟨c, rest, rfl, hrest⟩
  · -- There is no time.
    rfl
  show ite (c = 'T' ∨ c = 't' ∨ c = ' ') _ _ = none
  split_ifs
  · refine bind_eq_none_of_eq_some rfl ?_
    refine bind_eq_none_of_eq_some (hhour.readPair ⟨Nat.zero_le _, hm.hour⟩ _) ?_
    refine bind_eq_none_of_eq_some (readChar_self ':' _) ?_
    refine bind_eq_none_of_eq_some (hminute.readPair ⟨Nat.zero_le _, hm.minute⟩ _) ?_
    rcases hrest with rfl | rfl
    · -- There are no seconds.
      rfl
    · have hlast := hsecond.readPair ⟨Nat.zero_le _, hm.second.trans (by decide : 59 ≤ 60)⟩ []
      rw [List.append_nil] at hlast
      refine bind_eq_none_of_eq_some (readChar_self ':' _) ?_
      refine bind_eq_none_of_eq_some hlast ?_
      -- There is no offset.
      rfl
  · rfl

/-- What a layout writes is read in none of the notations that are tried before the layouts. -/
theorem other_notations_eq_none (hm : m.IsRegular) (h : parts ∈ layoutParts)
    (hw : m.write (parts.1 ++ parts.2) = some w) :
    Numeral.parse? w = none ∧ readInternetTime? w = none := by
  obtain ⟨hdate, htime⟩ := mem_of_mem_layoutParts h
  obtain ⟨hyear, hmonth, hday, -⟩ := hm.isSpelled
  obtain ⟨date, time⟩ := parts
  obtain ⟨front, back, hfront, hback, rfl⟩ := Moment.write_append_eq_some_iff.1 hw
  rcases hdate with rfl | rfl
  · refine ⟨?_, readInternetTime?_dashed hm hfront htime hback⟩
    cases (write_dashedDate m).symm.trans hfront
    rw [List.append_assoc]
    exact parse?_dashed (hyear.ne_nil (by decide)) hyear.digits _
  · refine ⟨?_, readInternetTime?_dotted hm hfront⟩
    cases (write_dottedDate m).symm.trans hfront
    rw [List.append_assoc, List.cons_append, List.append_assoc]
    exact parse?_dotted (hday.ne_nil two_pos) hday.digits hmonth.digits _

/-! ## What is read -/

/-- What is left of a moment when only the fields of a pattern are known. -/
def Moment.truncate (m : Moment) (items : List Item) : Moment where
  date := m.date
  hour := if zeroed .hour ∈ items then m.hour else 0
  minute := if zeroed .minute ∈ items then m.minute else 0
  second := if zeroed .second ∈ items then m.second else 0
  nanosecond := 0
  offset := 0

theorem moment?_record (hm : m.IsRegular) (h : parts ∈ layoutParts) :
    ((parts.1 ++ parts.2).foldl (Reading.record m) .empty).moment? =
      some (m.truncate (parts.1 ++ parts.2)) := by
  simp only [layoutParts, List.mem_cons, List.not_mem_nil, or_false] at h
  rcases h with rfl | rfl | rfl | rfl | rfl | rfl | rfl <;>
    exact congrArg (Option.bind · _) hm.date

theorem trim_layoutParts (hm : m.IsRegular) (h : parts ∈ layoutParts)
    (hw : m.write (parts.1 ++ parts.2) = some w) : trim w = w := by
  have hends : ∀ parts ∈ layoutParts,
      (∃ first ∈ (parts.1 ++ parts.2).head?, first.isExact = true) ∧
        ∃ last ∈ (parts.1 ++ parts.2).getLast?, last.isExact = true := by
    decide
  exact trim_write hm (hends parts h).1 (hends parts h).2 hw

/-- What a layout writes is read as the fields that it shows. -/
theorem findSome?_layouts (hm : m.IsRegular) (h : parts ∈ layoutParts)
    (hw : m.write (parts.1 ++ parts.2) = some w) :
    (dateTimeLayouts ++ dateLayouts).findSome? (readLayout? · w) =
      some (m.truncate (parts.1 ++ parts.2)) := by
  have hread : readItems (parts.1 ++ parts.2) .empty w =
      some ((parts.1 ++ parts.2).foldl (Reading.record m) .empty) := by
    have happend := readItems_append hm (areExact_layoutParts h).2 hw .empty [] []
    rwa [List.append_nil, List.append_nil] at happend
  have hlayouts : (dateTimeLayouts ++ dateLayouts).findSome? (readLayout? · w) =
      layoutParts.findSome? fun parts =>
        (readItems (parts.1 ++ parts.2) .empty w).bind Reading.moment? := by
    have hmap := congrArg (List.findSome? fun items? =>
      items?.bind fun items => (readItems items .empty w).bind Reading.moment?) map_parse?_layouts
    rwa [List.findSome?_map, List.findSome?_map] at hmap
  have hmoment : (readItems (parts.1 ++ parts.2) .empty w).bind Reading.moment? =
      some (m.truncate (parts.1 ++ parts.2)) := by
    rw [hread, Option.bind_some, moment?_record hm h]
  rw [hlayouts]
  cases hfind : layoutParts.findSome? _ with
  | none => cases hmoment.symm.trans (List.findSome?_eq_none_iff.1 hfind parts h)
  | some found =>
    -- Whatever layout reads the text is the one that wrote it.
    obtain ⟨parts', h', hfound⟩ := List.exists_of_findSome?_eq_some hfind
    by_cases hsame : parts' = parts
    · rw [← hfound, hsame, hmoment]
    · rw [readItems_of_ne hm h h' hsame hw] at hfound
      cases hfound

/-- The seconds of the smallest unit that a pattern shows. -/
def granularity (items : List Item) : Int :=
  if zeroed .second ∈ items then 1 else if zeroed .minute ∈ items then 60 else 86400

theorem Moment.isRegular_of_ofTimestamp? {n : Int} (h : Moment.ofTimestamp? n = some m)
    (hyear : 0 ≤ m.date.year) (hyear' : m.date.year ≤ 9999) : m.IsRegular := by
  obtain ⟨-, hdate, hhour, hminute, hsecond, -⟩ := Moment.of_ofTimestamp? h
  exact ⟨hdate, hyear, hyear', hhour, hminute, hsecond⟩

theorem nested_layoutParts (h : parts ∈ layoutParts) :
    (zeroed .second ∈ parts.1 ++ parts.2 → zeroed .minute ∈ parts.1 ++ parts.2) ∧
      (zeroed .minute ∈ parts.1 ++ parts.2 ↔ zeroed .hour ∈ parts.1 ++ parts.2) := by
  revert parts
  decide

/-- A layout rounds a timestamp down to its unit. -/
theorem timestamp_truncate {n : Int} (h : parts ∈ layoutParts)
    (hm : Moment.ofTimestamp? n = some m) :
    (m.truncate (parts.1 ++ parts.2)).timestamp = n - n % granularity (parts.1 ++ parts.2) := by
  obtain ⟨-, -, hhour, hminute, hsecond, hn⟩ := Moment.of_ofTimestamp? hm
  obtain ⟨hseconds, hminutes⟩ := nested_layoutParts h
  simp only [Moment.timestamp, Moment.truncate, granularity, ← hminutes]
  by_cases hsecondShown : zeroed .second ∈ parts.1 ++ parts.2
  · have := Int.emod_one n
    simp only [hsecondShown, hseconds hsecondShown, if_true]
    omega
  by_cases hminuteShown : zeroed .minute ∈ parts.1 ++ parts.2
  · simp only [hsecondShown, hminuteShown, if_true, if_false]
    omega
  · simp only [hsecondShown, hminuteShown, if_false]
    omega

end FormLetter.Calendar
