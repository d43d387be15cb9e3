import FormLetter.Date.Moment
import Mathlib.Tactic.IntervalCases

/-!
# Days and dates

Counting days and finding the date of a day are inverse to each other (`dayNumber_ofDayNumber`), and
the date that is found is one that the calendar has (`of?_ofDayNumber`). Both work in years that
start in March (`ofMarch`). Such a year ends with February, so a leap year is longer by its last
day: the year of a day in an era is found by dividing as if all years were of one length
(`yearOfEra_eq`), and the month from lengths that repeat every five months (`exists_month`). A
timestamp is counted in seconds of a day (`Moment.of_ofTimestamp?`).
-/

namespace FormLetter.Calendar

theorem isLeap_iff (year : Int) :
    isLeap year = true ↔ year % 4 = 0 ∧ (year % 100 ≠ 0 ∨ year % 400 = 0) := by
  simp only [isLeap, Bool.and_eq_true, Bool.or_eq_true, decide_eq_true_eq, bne_iff_ne]

theorem isLeap_add_mul (year era : Int) : isLeap (year + era * 400) = isLeap year := by
  rw [Bool.eq_iff_iff, isLeap_iff, isLeap_iff]
  omega

/-- The years before the year `y` of an era are full centuries, full cycles of four years, and up to
three years. -/
theorem daysBeforeYear_eq {q r s : Int} (hr : 0 ≤ r ∧ r ≤ 24) (hs : 0 ≤ s ∧ s ≤ 3) :
    daysBeforeYear (100 * q + 4 * r + s) = 36524 * q + 1461 * r + 365 * s := by
  rw [daysBeforeYear]
  omega

/-- Every day of an era is the day `t` of a year `y`, counted from 0. Only in a March year that ends
in a leap year there is a day 365. -/
theorem exists_year {e : Int} (he : 0 ≤ e ∧ e < eraDays) :
    ∃ y t, 0 ≤ y ∧ y ≤ 399 ∧ 0 ≤ t ∧ t ≤ 365 ∧ (t = 365 → isLeap (y + 1) = true) ∧
      e = daysBeforeYear y + t := by
  rw [eraDays] at he
  obtain ⟨q, hq⟩ : ∃ q, q = min 3 (e / 36524) := ⟨_, rfl⟩
  obtain ⟨r, hr⟩ : ∃ r, r = (e - 36524 * q) / 1461 := ⟨_, rfl⟩
  obtain ⟨s, hs⟩ : ∃ s, s = min 3 ((e - 36524 * q - 1461 * r) / 365) := ⟨_, rfl⟩
  have hcentury : 0 ≤ q ∧ q ≤ 3 ∧ 0 ≤ e - 36524 * q ∧ e - 36524 * q ≤ 36524 ∧
      (e - 36524 * q = 36524 → q = 3) := by omega
  have hcycle : 0 ≤ r ∧ r ≤ 24 ∧ 0 ≤ e - 36524 * q - 1461 * r ∧
      e - 36524 * q - 1461 * r ≤ 1460 ∧
      (e - 36524 * q - 1461 * r = 1460 → r = 24 → q = 3) := by omega
  refine ⟨100 * q + 4 * r + s, e - 36524 * q - 1461 * r - 365 * s, ?_, ?_, ?_, ?_, ?_, ?_⟩
  · omega
  · omega
  · omega
  · omega
  · intro ht
    rw [isLeap_iff]
    omega
  · rw [daysBeforeYear_eq (by omega) (by omega)]
    omega

/-- The division that finds the year. What is subtracted and added first leaves 365 days for each
year. -/
theorem yearOfEra_eq {y t : Int} (hy : 0 ≤ y ∧ y ≤ 399) (ht : 0 ≤ t ∧ t ≤ 365)
    (hleap : t = 365 → isLeap (y + 1) = true) :
    let e := daysBeforeYear y + t
    (e - e / 1460 + e / 36524 - e / 146096) / 365 = y := by
  obtain ⟨q, r, s, hq, hr, hs, rfl⟩ : ∃ q r s : Int, (0 ≤ q ∧ q ≤ 3) ∧ (0 ≤ r ∧ r ≤ 24) ∧
      (0 ≤ s ∧ s ≤ 3) ∧ y = 100 * q + 4 * r + s :=
    ⟨y / 100, y % 100 / 4, y % 4, by omega, by omega, by omega, by omega⟩
  rw [isLeap_iff] at hleap
  intro e
  have he : e = 36524 * q + 1461 * r + 365 * s + t := by rw [← daysBeforeYear_eq hr hs]
  have hlast : t = 365 → s = 3 ∧ (r = 24 → q = 3) := by omega
  have hcycles : e / 1460 = 25 * q + r + (24 * q + r + 365 * s + t) / 1460 := by omega
  have hcenturies : e / 36524 - e / 146096 = q := by
    have hrest : 0 ≤ 1461 * r + 365 * s + t ∧ 1461 * r + 365 * s + t ≤ 36524 := by omega
    rcases hrest.2.lt_or_eq with hlt | hfull
    · omega
    · -- The last day of the era is day 36524 of its last century.
      have hq3 : q = 3 := by omega
      omega
  -- Cycles are counted a day too short, so one more may seem full: never on the first day of a
  -- year, but always on day 365.
  obtain ⟨k, hk⟩ : ∃ k, (24 * q + r + 365 * s + t) / 1460 = k := ⟨_, rfl⟩
  have hshort : 0 ≤ t - k ∧ t - k < 365 := by omega
  have hdays : e - e / 1460 + e / 36524 - e / 146096 =
      365 * (100 * q + 4 * r + s) + (t - k) := by
    rw [add_sub_assoc, hcenturies, hcycles, hk, he]
    clear * -
    omega
  rw [hdays]
  clear * - hshort
  omega

/-! ## Months -/

/-- Every day of a year that starts in March is in one of its months. Those of the last one,
February, are counted from day 337 of the year. -/
theorem exists_month {t : Int} (ht : 0 ≤ t ∧ t ≤ 365) :
    ∃ m d : Nat, m ≤ 11 ∧ 1 ≤ d ∧ (m = 11 → (d : Int) = t - 336) ∧
      (d : Int) ≤ daysBeforeMonth (m + 1) - daysBeforeMonth m ∧
      (5 * t + 2) / 153 = m ∧ t = daysBeforeMonth m + d - 1 := by
  obtain ⟨m, hm⟩ : ∃ m : Nat, (5 * t + 2) / 153 = m :=
    ⟨_, (Int.toNat_of_nonneg (by omega)).symm⟩
  have hle : m ≤ 11 := by omega
  have hfirst : daysBeforeMonth m ≤ t ∧ t < daysBeforeMonth (m + 1) := by
    rw [daysBeforeMonth, daysBeforeMonth]
    omega
  have hlast : m = 11 → daysBeforeMonth m = 337 := by
    rintro rfl
    rfl
  exact ⟨m, (t - daysBeforeMonth m + 1).toNat, hle, by omega, by omega, by omega, hm, by omega⟩

def Date.ofMarch (year : Int) (m d : Nat) : Date :=
  ⟨if m < 10 then year else year + 1, if m < 10 then m + 3 else m - 9, d⟩

theorem dayNumber_ofMarch {y era : Int} {m d : Nat} (hy : 0 ≤ y ∧ y ≤ 399) (hm : m ≤ 11) :
    (Date.ofMarch (y + era * 400) m d).dayNumber =
      era * eraDays + daysBeforeYear y + daysBeforeMonth m + d - 1 - epochShift := by
  have hera : (y + era * 400).fdiv 400 = era := by
    rw [Int.fdiv_eq_ediv_of_nonneg _ (by decide)]
    omega
  by_cases hlow : m < 10
  · have hmonth : ((m + 3 : Nat) : Int) - 3 = m := by omega
    simp only [Date.dayNumber, Date.ofMarch, if_pos hlow, if_neg (show ¬m + 3 ≤ 2 by omega), hera,
      add_sub_cancel_right, hmonth]
  · have hmonth : ((m - 9 : Nat) : Int) + 9 = m := by omega
    simp only [Date.dayNumber, Date.ofMarch, if_neg hlow, if_pos (show m - 9 ≤ 2 by omega), hera,
      add_sub_cancel_right, hmonth]

theorem daysInMonth_ofMarch {year : Int} {m d : Nat} (hm : m ≤ 11) :
    (daysInMonth (Date.ofMarch year m d).year (Date.ofMarch year m d).month : Int) =
      if m = 11 then (if isLeap (year + 1) then 29 else 28)
      else daysBeforeMonth (m + 1) - daysBeforeMonth m := by
  interval_cases m
  case «11» =>
    rw [if_pos rfl]
    show ((if isLeap (year + 1) = true then 29 else 28 : Nat) : Int) = _
    split_ifs <;> rfl
  all_goals rfl

theorem daysInMonth_le (year : Int) (month : Nat) : daysInMonth year month ≤ 31 := by
  rw [daysInMonth]
  split_ifs <;> decide

/-- The date that is found for a day, as a day of a March year. -/
theorem exists_ofDayNumber (n : Int) : ∃ (y era : Int) (m d : Nat),
    (0 ≤ y ∧ y ≤ 399) ∧ m ≤ 11 ∧ 1 ≤ d ∧
    d ≤ daysInMonth (Date.ofDayNumber n).year (Date.ofDayNumber n).month ∧
    Date.ofDayNumber n = .ofMarch (y + era * 400) m d ∧
    n = era * eraDays + daysBeforeYear y + daysBeforeMonth m + d - 1 - epochShift := by
  obtain ⟨era, hera⟩ : ∃ era, (n + epochShift).fdiv eraDays = era := ⟨_, rfl⟩
  have hday : 0 ≤ n + epochShift - era * eraDays ∧ n + epochShift - era * eraDays < eraDays := by
    rw [← hera, Int.fdiv_eq_ediv_of_nonneg _ (by decide), eraDays]
    omega
  obtain ⟨y, t, hy0, hy, ht0, ht, hleap, he⟩ := exists_year hday
  have hyear := yearOfEra_eq ⟨hy0, hy⟩ ⟨ht0, ht⟩ hleap
  rw [← he] at hyear
  have hrest : n + epochShift - era * eraDays - daysBeforeYear y = t := by omega
  obtain ⟨m, d, hm, hd0, hlast, hd, hmonth, htd⟩ := exists_month ⟨ht0, ht⟩
  have hdate : Date.ofDayNumber n = .ofMarch (y + era * 400) m d := by
    have hshort : t - daysBeforeMonth m + 1 = d := by omega
    simp only [Date.ofDayNumber, hera, hyear, hrest, hmonth, hshort, Date.ofMarch,
      Int.toNat_natCast]
    by_cases hlow : m < 10
    · simp only [if_pos hlow, if_pos (show (m : Int) < 10 by omega)]
      rw [if_neg (by omega)]
      congr 1
    · simp only [if_neg hlow, if_neg (show ¬(m : Int) < 10 by omega)]
      rw [if_pos (by omega)]
      congr 1
      omega
  refine ⟨y, era, m, d, ⟨hy0, hy⟩, hm, hd0, ?_, hdate, by omega⟩
  have hnext : y + era * 400 + 1 = y + 1 + era * 400 := by omega
  rw [hdate, ← Nat.cast_le (α := Int), daysInMonth_ofMarch hm, hnext, isLeap_add_mul]
  split_ifs with h11 hfeb
  · have := hlast h11
    omega
  · have := hlast h11
    have : t ≠ 365 := fun h => hfeb (hleap h)
    omega
  · exact hd

/-- The day of the date of a day is that day. -/
theorem dayNumber_ofDayNumber (n : Int) : (Date.ofDayNumber n).dayNumber = n := by
  obtain ⟨y, era, m, d, hy, hm, -, -, hdate, hn⟩ := exists_ofDayNumber n
  rw [hdate, dayNumber_ofMarch hy hm, ← hn]

/-- The date of a day is one that the calendar has, if its year is. -/
theorem of?_ofDayNumber {n : Int} (h : minYear ≤ (Date.ofDayNumber n).year)
    (h' : (Date.ofDayNumber n).year ≤ maxYear) :
    Date.of? (Date.ofDayNumber n).year (Date.ofDayNumber n).month (Date.ofDayNumber n).day =
      some (Date.ofDayNumber n) := by
  obtain ⟨y, era, m, d, -, hm, hd0, hd, hdate, -⟩ := exists_ofDayNumber n
  have hmonth : 1 ≤ (Date.ofDayNumber n).month ∧ (Date.ofDayNumber n).month ≤ 12 := by
    rw [hdate]
    simp only [Date.ofMarch]
    split_ifs <;> omega
  have hday : (Date.ofDayNumber n).day = d := by rw [hdate, Date.ofMarch]
  rw [Date.of?, hday, if_pos ⟨h, h', hmonth.1, hmonth.2, hd0, hd⟩, ← hday]

theorem natAbs_le_of_year {n : Int} (h : 0 ≤ (Date.ofDayNumber n).year)
    (h' : (Date.ofDayNumber n).year ≤ 9999) : n.natAbs ≤ 5000000 := by
  obtain ⟨y, era, m, d, hy, hm, -, hd, hdate, hn⟩ := exists_ofDayNumber n
  have hlength := daysInMonth_le (Date.ofDayNumber n).year (Date.ofDayNumber n).month
  have hera : -1 ≤ era ∧ era ≤ 24 := by
    rw [hdate] at h h'
    simp only [Date.ofMarch] at h h'
    split_ifs at h h' <;> omega
  rw [daysBeforeYear, daysBeforeMonth, eraDays, epochShift] at hn
  omega

/-! ## Moments -/

/-- The moment of a timestamp is so many seconds after midnight of its day. -/
theorem Moment.of_ofTimestamp? {n : Int} {m : Moment} (h : Moment.ofTimestamp? n = some m) :
    m.date = Date.ofDayNumber (n / 86400) ∧
      Date.of? m.date.year m.date.month m.date.day = some m.date ∧
      m.hour ≤ 23 ∧ m.minute ≤ 59 ∧ m.second ≤ 59 ∧
      n = m.date.dayNumber * 86400 + m.hour * 3600 + m.minute * 60 + m.second := by
  rw [Moment.ofTimestamp?, Int.fdiv_eq_ediv_of_nonneg _ (by decide),
    Int.fmod_eq_emod_of_nonneg _ (by decide)] at h
  split at h
  · rename_i hyear
    cases h
    refine ⟨rfl, of?_ofDayNumber hyear.1 hyear.2, ?_, ?_, ?_, ?_⟩
    · show (n % 86400).toNat / 3600 ≤ 23
      omega
    · show (n % 86400).toNat / 60 % 60 ≤ 59
      omega
    · show (n % 86400).toNat % 60 ≤ 59
      omega
    · show n = (Date.ofDayNumber (n / 86400)).dayNumber * 86400 +
        ((n % 86400).toNat / 3600 : Nat) * 3600 + ((n % 86400).toNat / 60 % 60 : Nat) * 60 +
        ((n % 86400).toNat % 60 : Nat)
      rw [dayNumber_ofDayNumber]
      omega
  · cases h

theorem natAbs_le_of_ofTimestamp? {n : Int} {m : Moment} (h : Moment.ofTimestamp? n = some m)
    (hyear : 0 ≤ m.date.year) (hyear' : m.date.year ≤ 9999) : n.natAbs ≤ 10 ^ 12 := by
  obtain ⟨hdate, -⟩ := Moment.of_ofTimestamp? h
  rw [hdate] at hyear hyear'
  have hdays := natAbs_le_of_year hyear hyear'
  omega

end FormLetter.Calendar
