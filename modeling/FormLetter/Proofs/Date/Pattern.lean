import FormLetter.Date.Reader
import FormLetter.Proofs.Date.Calendar
import FormLetter.Proofs.Number.Integer
import Mathlib.Data.Nat.Digits.Defs

/-!
# Patterns read back

The fields of a moment whose year has four digits are written with all their digits, so each is read
as it was written, whatever follows (`exists_write_of_isExact`). By induction a pattern of such
fields reads what it wrote (`readItems_append`).
-/

namespace FormLetter.Calendar

open FormLetter.Number FormLetter.Text

variable {places n low high : Nat} {w cs : List Char}

/-- A number written with so many digits. -/
structure IsSpelled (places n : Nat) (w : List Char) : Prop where
  length : w.length = places
  digits : ∀ c ∈ w, isDigit c = true
  value : digitsValue w = n

theorem IsSpelled.ne_nil (h : IsSpelled places n w) (hpos : 0 < places) : w ≠ [] :=
  List.length_pos_iff.1 (h.length ▸ hpos)

theorem IsSpelled.not_blank (h : IsSpelled places n w) : ∀ c ∈ w, isBlank c = false :=
  fun c hc => isBlank_of_isDigit (h.digits c hc)

theorem digit_ofNat (h : n < 10) : isDigit (Char.ofNat ('0'.toNat + n)) = true ∧
    digitValue (Char.ofNat ('0'.toNat + n)) = n := by
  revert n
  decide

theorem isSpelled_twoDigits (h : n < 100) : IsSpelled 2 n (twoDigits .zero n) := by
  obtain ⟨hones, honesValue⟩ := digit_ofNat (Nat.mod_lt n (by decide : 0 < 10))
  obtain ⟨htens, htensValue⟩ := digit_ofNat (Nat.div_lt_of_lt_mul h : n / 10 < 10)
  have htext : twoDigits .zero n =
      [Char.ofNat ('0'.toNat + n / 10), Char.ofNat ('0'.toNat + n % 10)] := by
    rw [twoDigits]
    split_ifs with hzero
    · rw [hzero]
      rfl
    · rfl
  rw [htext]
  refine ⟨rfl, List.forall_mem_cons.2 ⟨htens, List.forall_mem_singleton.2 hones⟩, ?_⟩
  simp only [digitsValue, List.foldl_cons, List.foldl_nil, honesValue, htensValue]
  omega

theorem digitsValue_zeros (k : Nat) (ds : List Char) :
    digitsValue (List.replicate k '0' ++ ds) = digitsValue ds := by
  rw [digitsValue, digitsValue, List.foldl_append]
  congr 1
  induction k with
  | zero => rfl
  | succ k ih => rwa [List.replicate_succ, List.foldl_cons]

theorem isSpelled_zeroPadded (hpos : 0 < places) (h : n < 10 ^ places) :
    IsSpelled places n (zeroPadded places n) where
  length := by
    have hle : (decimalDigits n).length ≤ places := Nat.toDigits_length 10 n places hpos h
    simp only [zeroPadded, List.length_append, List.length_replicate]
    omega
  digits := fun _ => isDigit_of_mem_zeroPadded
  value := by rw [zeroPadded, digitsValue_zeros, digitsValue_decimalDigits]

theorem isSpelled_yearText {year : Int} (h : 0 ≤ year) (h' : year ≤ 9999) :
    IsSpelled 4 year.natAbs (yearText .zero year) := by
  have htext : yearText .zero year = zeroPadded 4 year.natAbs := by
    rw [yearText, if_pos ⟨h, by omega⟩, padded, if_neg (by omega)]
    rfl
  rw [htext]
  exact isSpelled_zeroPadded (by decide) (by omega)

/-- Digits are read up to a count of places, or up to what is no digit. -/
theorem readDigits_append (hne : w ≠ []) (hw : ∀ c ∈ w, isDigit c = true) (hle : w.length ≤ places)
    (hstop : w.length = places ∨ ∀ c ∈ cs.head?, isDigit c = false) :
    readDigits places (w ++ cs) = some (digitsValue w, cs) := by
  have hrest : (cs.take (places - w.length)).takeWhile isDigit = [] := by
    rcases hstop with hfull | hhead
    · rw [hfull, Nat.sub_self]
      rfl
    · cases cs with
      | nil => rw [List.take_nil]; rfl
      | cons c cs =>
        cases places - w.length with
        | zero => rfl
        | succ k =>
          exact List.takeWhile_cons_of_neg (by rw [hhead c rfl]; exact Bool.false_ne_true)
  rw [readDigits, List.take_append, List.take_of_length_le hle, List.takeWhile_append_of_pos hw,
    hrest, List.append_nil, List.drop_left' rfl]
  exact if_neg (by rwa [List.isEmpty_iff])

theorem IsSpelled.readBetween (h : IsSpelled 2 n w) (hn : low ≤ n ∧ n ≤ high) :
    readBetween low high (w ++ cs) = some (n, cs) := by
  rw [Calendar.readBetween, readDigits_append (h.ne_nil two_pos) h.digits h.length.le
    (.inl h.length), h.value]
  exact if_pos hn

theorem readYear_of_isDigit (h : ∀ c ∈ cs.head?, isDigit c = true) :
    readYear cs = (readDigits 4 cs).map fun (n, rest) => ((n : Int), rest) := by
  unfold readYear
  split
  · cases h '-' rfl
  · cases h '+' rfl
  · rfl

theorem head?_append_of_forall {p : Char → Prop} (hne : w ≠ []) (h : ∀ c ∈ w, p c) :
    ∀ c ∈ (w ++ cs).head?, p c := by
  obtain ⟨d, w, rfl⟩ := List.exists_cons_of_ne_nil hne
  rintro c ⟨⟩
  exact h d List.mem_cons_self

theorem readYear_append (hne : w ≠ []) (hw : ∀ c ∈ w, isDigit c = true) (hle : w.length ≤ 4)
    (hstop : w.length = 4 ∨ ∀ c ∈ cs.head?, isDigit c = false) :
    readYear (w ++ cs) = some ((digitsValue w : Int), cs) := by
  rw [readYear_of_isDigit (head?_append_of_forall hne hw), readDigits_append hne hw hle hstop]
  rfl

theorem IsSpelled.readYear (h : IsSpelled 4 n w) : readYear (w ++ cs) = some ((n : Int), cs) := by
  rw [readYear_append (h.ne_nil (by decide)) h.digits h.length.le (.inl h.length), h.value]

theorem trimStart_of_head? (h : ∀ c ∈ cs.head?, isBlank c = false) : trimStart cs = cs :=
  dropWhile_append_of_head? (List.forall_mem_nil _) h

theorem IsSpelled.trimStart (h : IsSpelled places n w) (hpos : 0 < places) (cs : List Char) :
    trimStart (w ++ cs) = w ++ cs :=
  trimStart_of_head? (head?_append_of_forall (h.ne_nil hpos) h.not_blank)

/-! ## Items -/

/-- A moment whose date the calendar has, whose year has four digits, and whose time of day has no
leap second. -/
structure Moment.IsRegular (m : Moment) : Prop where
  date : Date.of? m.date.year m.date.month m.date.day = some m.date
  year_nonneg : 0 ≤ m.date.year
  year_le : m.date.year ≤ 9999
  hour : m.hour ≤ 23
  minute : m.minute ≤ 59
  second : m.second ≤ 59

/-- An item that is read as it was written: a character that is no white space, or a field of the
date or the time of day with zeros in front. -/
def Item.isExact : Item → Bool
  | .literal c => !isBlank c
  | .numeric field .zero => field ∈ [.year, .month, .day, .hour, .minute, .second]
  | _ => false

/-- A reading after an item of a moment. -/
def Reading.record (m : Moment) (r : Reading) : Item → Reading
  | .numeric .year _ => { r with year := some m.date.year }
  | .numeric .month _ => { r with month := some m.date.month }
  | .numeric .day _ => { r with day := some m.date.day }
  | .numeric .hour _ => { r with hour := some m.hour }
  | .numeric .minute _ => { r with minute := some m.minute }
  | .numeric .second _ => { r with second := some m.second }
  | _ => r

variable {m : Moment} {item : Item} {items more : List Item}

theorem Date.month_and_day_of_of? {d : Date} (h : Date.of? d.year d.month d.day = some d) :
    (1 ≤ d.month ∧ d.month ≤ 12) ∧ 1 ≤ d.day ∧ d.day ≤ 31 := by
  rw [Date.of?] at h
  split at h
  · rename_i hvalid
    obtain ⟨-, -, hmonth, hmonth', hday, hday'⟩ := hvalid
    exact ⟨⟨hmonth, hmonth'⟩, hday, hday'.trans (daysInMonth_le _ _)⟩
  · cases h

theorem Moment.IsRegular.isSpelled (hm : m.IsRegular) :
    IsSpelled 4 m.date.year.natAbs (yearText .zero m.date.year) ∧
      IsSpelled 2 m.date.month (twoDigits .zero m.date.month) ∧
      IsSpelled 2 m.date.day (twoDigits .zero m.date.day) ∧
      IsSpelled 2 m.hour (twoDigits .zero m.hour) ∧
      IsSpelled 2 m.minute (twoDigits .zero m.minute) ∧
      IsSpelled 2 m.second (twoDigits .zero m.second) := by
  obtain ⟨hmonth, hday⟩ := Date.month_and_day_of_of? hm.date
  have hhour := hm.hour
  have hminute := hm.minute
  have hsecond := hm.second
  exact ⟨isSpelled_yearText hm.year_nonneg hm.year_le, isSpelled_twoDigits (by omega),
    isSpelled_twoDigits (by omega), isSpelled_twoDigits (by omega), isSpelled_twoDigits (by omega),
    isSpelled_twoDigits (by omega)⟩

theorem exists_write_of_isSpelled {field : NumericField}
    (hw : IsSpelled places n (field.write m .zero)) (hpos : 0 < places)
    (hread : ∀ r cs, Reading.field r (field.write m .zero ++ cs) field =
      some (r.record m (zeroed field), cs)) :
    ∃ w, (zeroed field).write m = some w ∧ w ≠ [] ∧ (∀ c ∈ w, isBlank c = false) ∧
      ∀ r cs, Reading.item r (w ++ cs) (zeroed field) = some (r.record m (zeroed field), cs) := by
  refine ⟨_, rfl, hw.ne_nil hpos, hw.not_blank, fun r cs => ?_⟩
  show Reading.field r (Text.trimStart _) field = _
  rw [hw.trimStart hpos, hread]

/-- An exact item writes some characters, none of them white space, and reads them whatever
follows. -/
theorem exists_write_of_isExact (hm : m.IsRegular) (h : item.isExact = true) :
    ∃ w, item.write m = some w ∧ w ≠ [] ∧ (∀ c ∈ w, isBlank c = false) ∧
      ∀ r cs, Reading.item r (w ++ cs) item = some (r.record m item, cs) := by
  obtain ⟨hmonthLe, hdayLe⟩ := Date.month_and_day_of_of? hm.date
  obtain ⟨hyear, hmonth, hday, hhour, hminute, hsecond⟩ := hm.isSpelled
  cases item with
  | literal c =>
    refine ⟨[c], rfl, List.cons_ne_nil c [], ?_, fun r cs => if_pos rfl⟩
    rintro d hd
    rw [List.mem_singleton.1 hd]
    simpa [Item.isExact] using h
  | blank c => cases h
  | text field => cases h
  | numeric field pad =>
    cases pad with
    | none => cases h
    | space => cases h
    | zero =>
      simp only [Item.isExact, decide_eq_true_eq, List.mem_cons, List.not_mem_nil, or_false] at h
      rcases h with rfl | rfl | rfl | rfl | rfl | rfl
      · refine exists_write_of_isSpelled hyear (by decide) fun r cs => ?_
        show (readYear (yearText .zero m.date.year ++ cs)).map _ = _
        rw [hyear.readYear, Int.natAbs_of_nonneg hm.year_nonneg]
        rfl
      · exact exists_write_of_isSpelled hmonth two_pos fun r cs =>
          congrArg (Option.map _) (hmonth.readBetween hmonthLe)
      · exact exists_write_of_isSpelled hday two_pos fun r cs =>
          congrArg (Option.map _) (hday.readBetween hdayLe)
      · exact exists_write_of_isSpelled hhour two_pos fun r cs =>
          congrArg (Option.map _) (hhour.readBetween ⟨Nat.zero_le _, hm.hour⟩)
      · exact exists_write_of_isSpelled hminute two_pos fun r cs =>
          congrArg (Option.map _) (hminute.readBetween ⟨Nat.zero_le _, hm.minute⟩)
      · exact exists_write_of_isSpelled hsecond two_pos fun r cs =>
          congrArg (Option.map _)
            (hsecond.readBetween ⟨Nat.zero_le _, hm.second.trans (by decide)⟩)

/-! ## Patterns -/

def Item.areExact : List Item → Bool
  | [] => true
  | .blank c :: items => isBlank c && items.head?.any Item.isExact && Item.areExact items
  | item :: items => item.isExact && Item.areExact items

theorem Item.areExact_cons_iff : Item.areExact (item :: items) = true ↔ Item.areExact items = true ∧
    (item.isExact = true ∨
      ∃ c, item = .blank c ∧ isBlank c = true ∧ ∃ next ∈ items.head?, next.isExact = true) := by
  cases item with
  | blank c =>
    simp only [Item.areExact, Bool.and_eq_true, Option.any_eq_true, Item.isExact,
      Bool.false_eq_true, false_or, Item.blank.injEq, exists_eq_left']
    tauto
  | literal c => simp [Item.areExact, and_comm]
  | numeric field pad => simp [Item.areExact, and_comm]
  | text field => simp [Item.areExact, and_comm]

theorem Moment.write_cons_eq_some_iff : m.write (item :: items) = some w ↔
    ∃ first rest, item.write m = some first ∧ m.write items = some rest ∧ w = first ++ rest := by
  simp only [Moment.write, List.mapM_cons, Option.map_eq_some_iff, Option.bind_eq_bind,
    Option.bind_eq_some_iff, Option.pure_def, Option.some.injEq]
  constructor
  · rintro ⟨ws, ⟨first, hfirst, rest, hrest, rfl⟩, rfl⟩
    exact ⟨first, rest.flatten, hfirst, ⟨rest, hrest, rfl⟩, rfl⟩
  · rintro ⟨first, -, hfirst, ⟨rest, hrest, rfl⟩, rfl⟩
    exact ⟨first :: rest, ⟨first, hfirst, rest, hrest, rfl⟩, rfl⟩

theorem Moment.write_append_eq_some_iff : m.write (items ++ more) = some w ↔
    ∃ front back, m.write items = some front ∧ m.write more = some back ∧ w = front ++ back := by
  induction items generalizing w with
  | nil => simp [Moment.write, eq_comm]
  | cons item items ih =>
    simp only [List.cons_append, Moment.write_cons_eq_some_iff, ih]
    constructor
    · rintro ⟨first, -, hfirst, ⟨rest, back, hrest, hback, rfl⟩, rfl⟩
      exact ⟨first ++ rest, back, ⟨first, rest, hfirst, hrest, rfl⟩, hback,
        (List.append_assoc ..).symm⟩
    · rintro ⟨-, back, ⟨first, rest, hfirst, hrest, rfl⟩, hback, rfl⟩
      exact ⟨first, rest ++ back, hfirst, ⟨rest, back, hrest, hback, rfl⟩, List.append_assoc ..⟩

theorem readItems_cons (item : Item) (items : List Item) (r : Reading) (cs : List Char) :
    readItems (item :: items) r cs =
      (r.item cs item).bind fun (r, rest) => readItems items r rest := by
  cases cs <;> rfl

theorem exists_write_of_areExact (hm : m.IsRegular) (hitems : Item.areExact items = true) :
    ∃ w, m.write items = some w := by
  induction items with
  | nil => exact ⟨[], rfl⟩
  | cons item items ih =>
    obtain ⟨hrestExact, hitem⟩ := Item.areExact_cons_iff.1 hitems
    obtain ⟨rest, hrest⟩ := ih hrestExact
    obtain ⟨first, hfirst⟩ : ∃ first, item.write m = some first := by
      rcases hitem with hexact | ⟨c, rfl, -⟩
      · obtain ⟨first, hfirst, -⟩ := exists_write_of_isExact hm hexact
        exact ⟨first, hfirst⟩
      · exact ⟨[c], rfl⟩
    exact ⟨_, Moment.write_cons_eq_some_iff.2 ⟨first, rest, hfirst, hrest, rfl⟩⟩

/-- A pattern with exact items at both ends writes no white space there. -/
theorem trim_write (hm : m.IsRegular) (hfirst : ∃ first ∈ items.head?, first.isExact = true)
    (hlast : ∃ last ∈ items.getLast?, last.isExact = true) (hw : m.write items = some w) :
    trim w = w := by
  obtain ⟨first, hfirst, hfirstExact⟩ := hfirst
  obtain ⟨last, hlast, hlastExact⟩ := hlast
  obtain ⟨front, hfront, hfrontNe, hfrontBlank, -⟩ := exists_write_of_isExact hm hfirstExact
  obtain ⟨back, hback, hbackNe, hbackBlank, -⟩ := exists_write_of_isExact hm hlastExact
  have hhead : ∀ c ∈ w.head?, isBlank c = false := by
    obtain ⟨rest, rfl⟩ := List.head?_eq_some_iff.1 hfirst
    obtain ⟨_, cs, hwritten, -, rfl⟩ := Moment.write_cons_eq_some_iff.1 hw
    cases hfront.symm.trans hwritten
    exact head?_append_of_forall hfrontNe hfrontBlank
  obtain ⟨cs, rfl⟩ : ∃ cs, w = cs ++ back := by
    obtain ⟨init, rfl⟩ := List.getLast?_eq_some_iff.1 hlast
    obtain ⟨cs, _, -, hwritten, rfl⟩ := Moment.write_append_eq_some_iff.1 hw
    have hsingle : m.write [last] = some (back ++ []) :=
      Moment.write_cons_eq_some_iff.2 ⟨back, [], hback, rfl, rfl⟩
    rw [List.append_nil] at hsingle
    cases hsingle.symm.trans hwritten
    exact ⟨cs, rfl⟩
  have htail : ∀ c ∈ (cs ++ back).getLast?, isBlank c = false := by
    rw [List.getLast?_append_of_ne_nil _ hbackNe]
    exact fun c hc => hbackBlank c (List.mem_of_getLast? hc)
  have htrim := trim_append (List.forall_mem_nil _) (List.forall_mem_nil _)
    (List.append_ne_nil_of_right_ne_nil cs hbackNe) hhead htail
  rwa [List.nil_append, List.append_nil] at htrim

theorem readItems_literal_of_ne {c : Char} (h : ∀ d ∈ cs.head?, d ≠ c) (items : List Item)
    (r : Reading) : readItems (.literal c :: items) r cs = none := by
  rw [readItems_cons]
  cases cs with
  | nil => rfl
  | cons d cs =>
    rw [Reading.item, if_neg (h d rfl)]
    rfl

/-- What a pattern reads of what it wrote: each of its fields, as it is in the moment. -/
theorem readItems_append (hm : m.IsRegular) (hitems : Item.areExact items = true)
    (hw : m.write items = some w) (r : Reading) (more : List Item) (cs : List Char) :
    readItems (items ++ more) r (w ++ cs) =
      readItems more (items.foldl (Reading.record m) r) cs := by
  induction items generalizing w r with
  | nil =>
    cases hw
    rfl
  | cons item items ih =>
    obtain ⟨first, rest, hfirst, hrest, rfl⟩ := Moment.write_cons_eq_some_iff.1 hw
    obtain ⟨hrestExact, hexact | ⟨c, rfl, hc, next, hnext, hnextExact⟩⟩ :=
      Item.areExact_cons_iff.1 hitems
    · obtain ⟨_, hwritten, -, -, hread⟩ := exists_write_of_isExact hm hexact
      cases hfirst.symm.trans hwritten
      rw [List.cons_append, readItems_cons, List.append_assoc, hread]
      exact ih hrestExact hrest _
    · -- White space is skipped up to the field that follows it.
      cases hfirst
      obtain ⟨items, rfl⟩ := List.head?_eq_some_iff.1 hnext
      obtain ⟨second, back, hsecond, -, rfl⟩ := Moment.write_cons_eq_some_iff.1 hrest
      obtain ⟨_, hwritten, hne, hblank, -⟩ := exists_write_of_isExact hm hnextExact
      cases hsecond.symm.trans hwritten
      have hstart : trimStart ([c] ++ (second ++ back ++ cs)) = second ++ back ++ cs := by
        refine dropWhile_append_of_head? (List.forall_mem_singleton.2 hc) ?_
        rw [List.append_assoc]
        exact head?_append_of_forall hne hblank
      rw [List.cons_append, readItems_cons, List.append_assoc]
      show readItems _ r (trimStart _) = _
      rw [hstart]
      exact ih hrestExact hrest r

end FormLetter.Calendar
