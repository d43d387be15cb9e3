import FormLetter.Proofs.Number.Decimal
import FormLetter.Proofs.Text.Case
import FormLetter.Proofs.Text.Run

/-!
# Texts that open no marker

A text is `Calm` if after each of its opening braces comes a quote, a closing brace or a digit, as
in JSON. No brace of it opens a marker then, and upper and lower case do not change that
(`calm_upper`, `calm_lower`).
-/

namespace FormLetter

open FormLetter.Number

/-- What may follow an opening brace that opens no marker. -/
def Text.isCalming (c : Char) : Bool := c == '"' || c == '}' || isDigit c

/-- No opening brace of the text opens a marker, whatever follows the text. -/
inductive Text.Calm : List Char → Prop where
  | nil : Calm []
  | cons {c : Char} {cs : List Char} :
    (c = '{' → ∃ d ds, cs = d :: ds ∧ isCalming d = true) → Calm cs → Calm (c :: cs)

namespace Text

variable {as bs cs : List Char}

theorem Calm.append (ha : Calm as) (hb : Calm bs) : Calm (as ++ bs) := by
  induction ha with
  | nil => exact hb
  | cons hc _ ih =>
    refine .cons (fun h => ?_) ih
    obtain ⟨d, ds, rfl, hd⟩ := hc h
    exact ⟨d, ds ++ bs, rfl, hd⟩

theorem calm_of_not_mem (h : '{' ∉ cs) : Calm cs := by
  induction cs with
  | nil => exact .nil
  | cons c cs ih =>
    rw [List.mem_cons, not_or] at h
    exact .cons (fun hc => absurd hc.symm h.1) (ih h.2)

theorem calm_of_braceless (h : ∀ c ∈ cs, isBraceless c = true) : Calm cs :=
  calm_of_not_mem (not_mem_of_braceless h).1

theorem calm_of_forall {p : Char → Bool} (hp : p '{' = false) (h : ∀ c ∈ cs, p c = true) :
    Calm cs :=
  calm_of_not_mem fun hm => by rw [h _ hm] at hp; cases hp

theorem Calm.tail {c : Char} (h : Calm (c :: cs)) : Calm cs := by
  cases h with
  | cons _ h => exact h

theorem Calm.of_suffix (h : Calm cs) (hs : bs <:+ cs) : Calm bs := by
  obtain ⟨front, rfl⟩ := hs
  induction front with
  | nil => exact h
  | cons c front ih => exact ih h.tail

theorem Calm.image {c : Char} (h : Calm (c :: cs)) {image rest : List Char}
    (himage : c ≠ '{' → '{' ∉ image) (hbrace : c = '{' → image = ['{'])
    (hnext : ∀ d ds, cs = d :: ds → isCalming d = true → ∃ es, rest = d :: es) (hrest : Calm rest) :
    Calm (image ++ rest) := by
  by_cases hc : c = '{'
  · cases h with
    | cons hcalm _ =>
      obtain ⟨d, ds, hcs, hd⟩ := hcalm hc
      obtain ⟨es, rfl⟩ := hnext d ds hcs hd
      rw [hbrace hc]
      exact .cons (fun _ => ⟨d, es, rfl, hd⟩) hrest
  · exact (calm_of_not_mem (himage hc)).append hrest

def openingBrace : CaseRun := ⟨0x7B, 0x7B, 1, 0⟩

theorem covers_openingBrace_iff {c : Char} : openingBrace.covers c.toNat = true ↔ c = '{' := by
  rw [CaseRun.covers, Bool.and_eq_true, decide_eq_true_eq, beq_iff_eq, ← Char.toNat_inj]
  have hbrace : '{'.toNat = 0x7B := rfl
  simp only [openingBrace, hbrace]
  omega

theorem isUnreached_openingBrace : isUnreached [openingBrace] = true := by
  decide +kernel

theorem avoids_upperRuns : upperRuns.toList.all (·.avoids openingBrace) = true := by
  decide +kernel

theorem upperSpecial_image :
    (upperSpecial.toList.all fun x => x.2.all fun n => !Nat.beq n 0x7B) = true := by
  decide +kernel

theorem toNat_of_isCalming {c : Char} (h : isCalming c = true) :
    c.toNat < 0x41 ∨ c.toNat = 0x7D := by
  simp only [isCalming, isDigit, Bool.or_eq_true, Bool.and_eq_true, beq_iff_eq,
    decide_eq_true_eq] at h
  rcases h with (rfl | rfl) | ⟨-, hle⟩
  · decide
  · decide
  · have hnine : c.toNat ≤ 0x39 := hle
    omega

theorem toUpper_eq_self {c : Char} (h : c.toNat < 0x61 ∨ 0x7A < c.toNat) : c.toUpper = c := by
  refine dif_neg fun hlower => ?_
  have hle : 0x61 ≤ c.toNat ∧ c.toNat ≤ 0x7A := hlower
  omega

theorem toUpper_ne {c : Char} (hc : c.toNat < 0x80) (h : c ≠ '{') : c.toUpper ≠ '{' := by
  have hall : ∀ n < 0x80, n ≠ 0x7B → (Char.ofNat n).toUpper ≠ '{' := by decide +kernel
  have hupper := hall c.toNat hc fun hn => h (Char.toNat_inj.1 hn)
  rwa [Char.ofNat_toNat] at hupper

theorem ofNat_ne {n : Nat} (h : n ≠ 0x7B) : Char.ofNat n ≠ '{' := by
  intro he
  rcases toNat_ofNat n with hn | hn
  · rw [he] at hn
    exact h hn.symm
  · rw [he] at hn
    cases hn

theorem upperChar_of_isCalming {d : Char} (h : isCalming d = true) : upperChar d = [d] := by
  have hd := toNat_of_isCalming h
  rw [upperChar, if_pos (by omega), toUpper_eq_self (by omega)]

theorem not_mem_upperChar {c : Char} (h : c ≠ '{') : '{' ∉ upperChar c := by
  rw [upperChar]
  split
  · rename_i hc
    rw [List.mem_singleton]
    exact (toUpper_ne hc h).symm
  · rw [mapCase]
    split
    · rename_i r hr
      have havoids := List.all_eq_true.1 avoids_upperRuns r
        (Array.mem_toList_iff.2 (Array.mem_of_find?_eq_some hr))
      have hcovers := Array.find?_some hr
      have himage := CaseRun.covers_image havoids hcovers
      rw [List.mem_singleton]
      refine (ofNat_ne fun hn => ?_).symm
      have hn : r.image c.toNat = 0x7B := hn
      rw [hn] at himage
      exact absurd himage (by decide)
    · split
      · rename_i x image hx
        have himage := List.all_eq_true.1 upperSpecial_image (x, image)
          (Array.mem_toList_iff.2 (Array.mem_of_find?_eq_some hx))
        rw [List.mem_map]
        rintro ⟨n, hn, he⟩
        refine ofNat_ne (fun hbrace => ?_) he
        rw [hbrace] at hn
        exact absurd (List.all_eq_true.1 himage _ hn) (by decide)
      · rw [List.mem_singleton]
        exact Ne.symm h

theorem calm_upper {s : String} (h : Calm s.toList) : Calm (upper s).toList := by
  rw [upper, String.toList_ofList]
  generalize s.toList = cs at h
  induction cs with
  | nil => exact .nil
  | cons c cs ih =>
    rw [List.flatMap_cons]
    refine h.image not_mem_upperChar (fun hc => ?_) (fun d ds hcs hd => ?_) (ih h.tail)
    · rw [hc]
      decide
    · rw [hcs, List.flatMap_cons, upperChar_of_isCalming hd]
      exact ⟨_, rfl⟩

theorem lowerFrom_cons_of_isLower {c : Char} (h : IsLower c) (before cs : List Char) :
    lowerFrom before (c :: cs) = c :: lowerFrom (c :: before) cs := by
  have hsigma : c ≠ capitalSigma := by
    rintro rfl
    exact absurd h (by decide +kernel)
  rw [lowerFrom, if_neg hsigma, lowerChar_eq_self h]
  rfl

theorem isLower_of_isCalming {d : Char} (h : isCalming d = true) : IsLower d := by
  have hd := toNat_of_isCalming h
  exact isLower_of_ascii (by omega)
    (CaseRun.covers_eq_false (by simp only [asciiRun]; omega))

theorem calm_lower {s : String} (h : Calm s.toList) : Calm (lower s).toList := by
  rw [lower, String.toList_ofList]
  generalize s.toList = cs at h
  generalize [] = before
  induction cs generalizing before with
  | nil => exact .nil
  | cons c cs ih =>
    obtain ⟨image, heq, -, himage⟩ := exists_lowerFrom_cons isUnreached_openingBrace before c cs
    rw [heq]
    refine h.image (fun hc hm => ?_) (fun hc => ?_) (fun d ds hcs hd => ?_) (ih h.tail _)
    · rcases himage _ hm with ⟨-, he⟩ | hcovers
      · exact hc he.symm
      · have hbrace := hcovers openingBrace (List.mem_singleton_self _)
        rw [covers_openingBrace_iff.2 rfl] at hbrace
        cases hbrace
    · rw [hc, lowerFrom_cons_of_isLower (by decide +kernel)] at heq
      exact (List.append_cancel_right (heq : ['{'] ++ _ = image ++ _)).symm
    · rw [hcs, lowerFrom_cons_of_isLower (isLower_of_isCalming hd)]
      exact ⟨_, rfl⟩

end Text

end FormLetter
