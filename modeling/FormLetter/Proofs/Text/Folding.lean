import FormLetter.Proofs.Text.Case
import FormLetter.Text.Blank

/-!
# Case folding

`simpleFold` is Unicode's simple case folding, under which characters that differ only in case are
the same. As a rule it is the small letter of the capital, so it is read off the tables of upper and
lower case, but for the characters of `foldRuns`. A small letter of ASCII is the folded form of
itself and its capital, and `s` and `k` are of one character more (`simpleFold_eq_iff`). None of
these is white space (`isBlank_eq_false_of_simpleFold`).
-/

namespace FormLetter.Text

/-- The image of a character under a case mapping given by its runs, a single character. -/
def mapOne (runs : List CaseRun) (c : Char) : Char :=
  match runs.find? (·.covers c.toNat) with
  | some r => Char.ofNat (r.image c.toNat)
  | none => c

def simpleUpper (c : Char) : Char := if c.toNat < 0x80 then c.toUpper else mapOne upperRuns.toList c

def simpleLower (c : Char) : Char := if c.toNat < 0x80 then c.toLower else mapOne lowerRuns.toList c

/-- Where folding is not the small letter of the capital: the dotless i stays, Cherokee letters
become capitals, and three characters become others with the same full capitals. -/
def foldRuns : List CaseRun := [
  ⟨0x131, 0x131, 1, 0⟩, ⟨0x13A0, 0x13F5, 1, 0⟩, ⟨0x13F8, 0x13FD, 1, -8⟩,
  ⟨0x1FD3, 0x1FD3, 1, -7235⟩, ⟨0x1FE3, 0x1FE3, 1, -7219⟩, ⟨0xAB70, 0xABBF, 1, -38864⟩,
  ⟨0xFB05, 0xFB05, 1, 1⟩]

def simpleFold (c : Char) : Char :=
  if foldRuns.any (·.covers c.toNat) then mapOne foldRuns c else simpleLower (simpleUpper c)

def asciiChars : CaseRun := ⟨0, 0x7F, 1, 0⟩

def kelvinSign : CaseRun := ⟨0x212A, 0x212A, 1, 0⟩

/-- Whether a mapping takes no character to one of the targets but those listed. -/
def avoidsBut (listed : List Char) (targets : List CaseRun) (runs : List CaseRun) : Bool :=
  runs.all fun r => targets.all r.avoids ||
    (Nat.beq r.first r.last && listed.any fun c => Nat.beq c.toNat r.first)

theorem avoidsBut_upperRuns :
    avoidsBut ['ſ', 'ı'] [asciiChars, kelvinSign] upperRuns.toList = true := by
  decide +kernel

theorem avoidsBut_lowerRuns : avoidsBut ['\u212A'] [asciiChars] lowerRuns.toList = true := by
  decide +kernel

theorem avoidsBut_foldRuns : avoidsBut [] [asciiChars] foldRuns = true := by
  decide +kernel

variable {listed : List Char} {targets : List CaseRun} {runs : List CaseRun} {t : CaseRun}
  {c k : Char}

theorem covers_asciiChars_iff {n : Nat} : asciiChars.covers n = true ↔ n < 0x80 := by
  rw [CaseRun.covers, Bool.and_eq_true, decide_eq_true_eq, beq_iff_eq]
  simp only [asciiChars]
  omega

/-- A character that becomes another one that is a target is listed. -/
theorem mem_of_covers_mapOne (h : avoidsBut listed targets runs = true) (ht : t ∈ targets)
    (hc : t.covers (mapOne runs c).toNat = true) (hself : mapOne runs c ≠ c)
    (hzero : mapOne runs c ≠ '\x00') : c ∈ listed := by
  rw [mapOne] at hc hself hzero
  split at hc
  · rename_i r hr
    have hmem := List.mem_of_find?_eq_some hr
    have hcovers := List.find?_some hr
    rw [hr] at hzero
    have hn := (toNat_ofNat (r.image c.toNat)).resolve_right hzero
    rcases Bool.or_eq_true_iff.1 (List.all_eq_true.1 h r hmem) with havoids | hlisted
    · rw [hn, CaseRun.covers_image (List.all_eq_true.1 havoids t ht) hcovers] at hc
      cases hc
    · -- the run is a single character, which is listed
      simp only [Bool.and_eq_true, Nat.beq_eq, List.any_eq_true] at hlisted
      obtain ⟨hlast, d, hd, hfirst⟩ := hlisted
      simp only [CaseRun.covers, Bool.and_eq_true, decide_eq_true_eq] at hcovers
      have hdc : d = c := Char.toNat_inj.1 (by omega)
      exact hdc ▸ hd
  · rename_i hnone
    rw [hnone] at hself
    exact absurd rfl hself

/-! ## Small letters of ASCII -/

theorem simpleFold_of_ascii (h : c.toNat < 0x80) : simpleFold c = c.toLower := by
  have hfirst : ∀ r ∈ foldRuns, 0x80 ≤ r.first := by decide
  have hruns : ¬foldRuns.any (·.covers c.toNat) = true := by
    rw [List.any_eq_true]
    rintro ⟨r, hr, hcovers⟩
    rw [CaseRun.covers_eq_false (.inl (Nat.lt_of_lt_of_le h (hfirst r hr)))] at hcovers
    cases hcovers
  have hchars : ∀ n < 0x80, (Char.ofNat n).toUpper.toNat < 0x80 ∧
      (Char.ofNat n).toUpper.toLower = (Char.ofNat n).toLower := by decide
  obtain ⟨hupper, hlower⟩ := hchars c.toNat h
  rw [Char.ofNat_toNat] at hupper hlower
  rw [simpleFold, if_neg hruns, simpleUpper, if_pos h, simpleLower, if_pos hupper, hlower]

theorem toNat_of_isLower (h : k.isLower = true) : 0x61 ≤ k.toNat ∧ k.toNat ≤ 0x7A :=
  (Bool.and_eq_true_iff.1 h).imp of_decide_eq_true of_decide_eq_true

theorem ne_of_isLower (h : k.isLower = true) : k ≠ '\x00' := by
  rintro rfl
  cases h

theorem eq_or_capital_of_toLower_eq (h : c.toLower = k) :
    c = k ∨ 0x41 ≤ c.toNat ∧ c.toNat ≤ 0x5A := by
  by_cases hupper : c.val ≥ 'A'.val ∧ c.val ≤ 'Z'.val
  · exact .inr hupper
  · exact .inl ((dif_neg hupper : c.toLower = c).symm.trans h)

theorem ascii_of_toLower_eq (hk : k.isLower = true) (h : c.toLower = k) : c.toNat < 0x80 := by
  have hbounds := toNat_of_isLower hk
  rcases eq_or_capital_of_toLower_eq h with rfl | hc <;> omega

theorem mem_of_mapOne_eq (h : avoidsBut listed (asciiChars :: targets) runs = true)
    (hk : k.isLower = true) (hc : ¬c.toNat < 0x80) (heq : mapOne runs c = k) : c ∈ listed := by
  have hbounds := toNat_of_isLower hk
  refine mem_of_covers_mapOne h (List.mem_cons_self ..) (heq ▸ covers_asciiChars_iff.2 (by omega))
    (heq ▸ ?_) (heq ▸ ne_of_isLower hk)
  rintro rfl
  omega

theorem ascii_or_kelvin_of_simpleLower_eq (hk : k.isLower = true) (h : simpleLower c = k) :
    c.toNat < 0x80 ∨ c = '\u212A' := by
  rw [simpleLower] at h
  split at h
  · exact .inl ‹_›
  · exact .inr (List.mem_singleton.1 (mem_of_mapOne_eq avoidsBut_lowerRuns hk ‹_› h))

/-- Past ASCII the long s and the Kelvin sign fold to small letters of ASCII. -/
theorem eq_longS_or_kelvin_of_simpleFold_eq (hk : k.isLower = true) (hc : ¬c.toNat < 0x80)
    (h : simpleFold c = k) : c = 'ſ' ∨ c = '\u212A' := by
  rw [simpleFold] at h
  split at h
  · cases mem_of_mapOne_eq avoidsBut_foldRuns hk hc h
  · rename_i hrun
    have hdotless : c ≠ 'ı' := by
      rintro rfl
      exact hrun (by decide)
    have hzero : simpleUpper c ≠ '\x00' := by
      intro hu
      rw [hu] at h
      exact ne_of_isLower hk h.symm
    have hupper := ascii_or_kelvin_of_simpleLower_eq hk h
    rw [simpleUpper, if_neg hc] at hupper hzero
    -- a capital of its own has to be listed, since it is a letter of ASCII or the Kelvin sign
    by_cases hself : mapOne upperRuns.toList c = c
    · rw [hself] at hupper
      exact .inr (hupper.resolve_left hc)
    · have hlisted : c ∈ ['ſ', 'ı'] := by
        rcases hupper with hascii | hkelvin
        · exact mem_of_covers_mapOne avoidsBut_upperRuns (t := asciiChars) (by simp)
            (covers_asciiChars_iff.2 hascii) hself hzero
        · exact mem_of_covers_mapOne avoidsBut_upperRuns (t := kelvinSign) (by simp)
            (by rw [hkelvin]; decide) hself hzero
      exact .inl (by simpa [hdotless] using hlisted)

/-- What folds to a small letter of ASCII: the letter, its capital, and for two letters one
character more. -/
theorem simpleFold_eq_iff (hk : k.isLower = true) : simpleFold c = k ↔
    c.toLower = k ∨ (k = 's' ∧ c = 'ſ') ∨ (k = 'k' ∧ c = '\u212A') := by
  have hlong : simpleFold 'ſ' = 's' := rfl
  have hkelvin : simpleFold '\u212A' = 'k' := rfl
  constructor
  · intro h
    by_cases hc : c.toNat < 0x80
    · exact .inl (simpleFold_of_ascii hc ▸ h)
    · rcases eq_longS_or_kelvin_of_simpleFold_eq hk hc h with rfl | rfl
      · exact .inr (.inl ⟨h ▸ hlong, rfl⟩)
      · exact .inr (.inr ⟨h ▸ hkelvin, rfl⟩)
  · rintro (h | ⟨rfl, rfl⟩ | ⟨rfl, rfl⟩)
    · rw [simpleFold_of_ascii (ascii_of_toLower_eq hk h), h]
    · exact hlong
    · exact hkelvin

theorem isBlank_eq_false_of_simpleFold (hk : k.isLower = true) (h : simpleFold c = k) :
    isBlank c = false := by
  rcases (simpleFold_eq_iff hk).1 h with h | ⟨-, rfl⟩ | ⟨-, rfl⟩
  · have hbounds := toNat_of_isLower hk
    have hc : 0x41 ≤ c.toNat ∧ c.toNat ≤ 0x7A := by
      rcases eq_or_capital_of_toLower_eq h with rfl | hc <;> omega
    rw [Bool.eq_false_iff]
    intro hblank
    simp only [isBlank, Bool.or_eq_true, Bool.and_eq_true, decide_eq_true_eq, beq_iff_eq] at hblank
    omega
  · decide
  · decide

end FormLetter.Text
