import FormLetter.Filter.Registry

/-!
# Lower case is a normal form

No lower-case form has a character that has a lower-case form itself, so `lower_lower`: a text in
lower case is its own. What kinds of characters lower case can bring into a text is found by
comparing the runs of the table with those of the kind (`isUnreached`), not character by character.
A filter is found under its name in lower case as well (`get?_lower`).
-/

namespace FormLetter

namespace Text

def CaseRun.image (r : CaseRun) (n : Nat) : Nat := (n + r.delta).toNat

/-- Whether the images of a run are no characters of another run: they come before or after it, or
both take every other code point and are out of step. The numbers are compared as the kernel
computes them. -/
def CaseRun.avoids (r r' : CaseRun) : Bool :=
  Nat.blt (r.image r.last) r'.first || Nat.blt r'.last (r.image r.first) ||
    ((Nat.beq r.step 2 || Nat.beq r.first r.last) && Nat.beq r'.step 2 &&
      Nat.blt 0 (r.image r.first) && Nat.beq ((r.image r.first + r'.first) % 2) 1)

theorem CaseRun.covers_image {r r' : CaseRun} {n : Nat} (h : r.avoids r' = true)
    (hn : r.covers n = true) : r'.covers (r.image n) = false := by
  rw [← Bool.not_eq_true]
  intro hm
  simp only [covers, Bool.and_eq_true, decide_eq_true_eq, beq_iff_eq] at hn hm
  obtain ⟨⟨hfirst, hlast⟩, hstep⟩ := hn
  obtain ⟨⟨hfirst', hlast'⟩, hstep'⟩ := hm
  simp only [avoids, Bool.or_eq_true, Bool.and_eq_true, Nat.blt_eq, Nat.beq_eq] at h
  simp only [image] at h hfirst' hlast' hstep'
  rcases h with (hbefore | hafter) | ⟨⟨⟨htwo | hone, htwo'⟩, hpos⟩, hodd⟩
  · omega
  · omega
  · rw [htwo] at hstep
    rw [htwo'] at hstep'
    omega
  · rw [htwo'] at hstep'
    omega

theorem CaseRun.covers_eq_false {r : CaseRun} {n : Nat} (h : n < r.first ∨ r.last < n) :
    r.covers n = false := by
  have hout : ¬(r.first ≤ n ∧ n ≤ r.last) := by omega
  rw [covers, decide_eq_false hout, Bool.false_and]

def asciiRun : CaseRun := ⟨0x41, 0x5A, 1, 32⟩

/-- The capitals as runs, with the one that becomes two characters. -/
def capitalRuns : List CaseRun := asciiRun :: ⟨0x130, 0x130, 1, 0⟩ :: lowerRuns.toList

def IsLower (c : Char) : Prop := ∀ r ∈ capitalRuns, r.covers c.toNat = false

instance : DecidablePred IsLower := fun c =>
  inferInstanceAs (Decidable (∀ r ∈ capitalRuns, r.covers c.toNat = false))

/-- What lower case may write without taking it from a run. -/
def irregular : List Char := ['\x00', 'i', '\u0307', 'σ', 'ς']

/-- Whether lower case brings no character of these runs into a text: no capital becomes one, and
none of them is irregular. -/
def isUnreached (rs : List CaseRun) : Bool :=
  (asciiRun :: lowerRuns.toList).all (fun r => rs.all r.avoids) &&
    irregular.all fun c => rs.all fun r => !r.covers c.toNat

theorem isUnreached_capitalRuns : isUnreached capitalRuns = true := by
  decide +kernel

variable {rs : List CaseRun} {c d : Char} {before cs : List Char} {s : String}

theorem avoids_of_isUnreached (h : isUnreached rs = true) {r r' : CaseRun}
    (hr : r ∈ asciiRun :: lowerRuns.toList) (hr' : r' ∈ rs) : r.avoids r' = true :=
  List.all_eq_true.1 (List.all_eq_true.1 (Bool.and_eq_true_iff.1 h).1 r hr) r' hr'

theorem covers_of_isUnreached (h : isUnreached rs = true) (hc : c ∈ irregular) :
    ∀ r ∈ rs, r.covers c.toNat = false := by
  intro r hr
  have hall := List.all_eq_true.1 (List.all_eq_true.1 (Bool.and_eq_true_iff.1 h).2 c hc) r hr
  rwa [Bool.not_eq_true'] at hall

theorem lowerChar_eq_self (h : IsLower c) : lowerChar c = [c] := by
  rw [lowerChar]
  split
  · have hc := h asciiRun (List.mem_cons_self ..)
    have hupper : ¬(c.val ≥ 'A'.val ∧ c.val ≤ 'Z'.val) := by
      intro hu
      have hle : 0x41 ≤ c.toNat ∧ c.toNat ≤ 0x5A := hu
      simp [CaseRun.covers, asciiRun, hle, Nat.mod_one] at hc
    exact congrArg ([·]) (dif_neg hupper)
  · have hruns : lowerRuns.find? (·.covers c.toNat) = none := by
      refine Array.find?_eq_none.2 fun r hr => ?_
      have hmem : r ∈ capitalRuns :=
        List.mem_cons_of_mem _ (List.mem_cons_of_mem _ (Array.mem_toList_iff.2 hr))
      rw [h r hmem]
      exact Bool.false_ne_true
    have hspecial : lowerSpecial.find? (·.1 == c.toNat) = none := by
      have hc := h ⟨0x130, 0x130, 1, 0⟩ (List.mem_cons_of_mem _ (List.mem_cons_self ..))
      refine Array.find?_eq_none.2 fun x hx => ?_
      simp only [lowerSpecial, List.mem_toArray, List.mem_singleton] at hx
      subst hx
      intro he
      simp [CaseRun.covers, ← beq_iff_eq.1 he] at hc
    rw [mapCase, hruns, hspecial]

theorem toNat_ofNat (n : Nat) : (Char.ofNat n).toNat = n ∨ Char.ofNat n = '\x00' := by
  by_cases hn : n.isValidChar
  · have hchar : Char.ofNat n = Char.ofNatAux n hn := dif_pos hn
    exact .inl (hchar ▸ rfl)
  · exact .inr (dif_neg hn)

theorem covers_image (h : isUnreached rs = true) {r : CaseRun}
    (hr : r ∈ asciiRun :: lowerRuns.toList) (hc : r.covers c.toNat = true) :
    ∀ r' ∈ rs, r'.covers (Char.ofNat (r.image c.toNat)).toNat = false := by
  rcases toNat_ofNat (r.image c.toNat) with hn | hn
  · intro r' hr'
    rw [hn]
    exact CaseRun.covers_image (avoids_of_isUnreached h hr hr') hc
  · rw [hn]
    exact covers_of_isUnreached h (by decide)

theorem isLower_of_find?_eq_none (hascii : 0x80 ≤ c.toNat)
    (hruns : lowerRuns.find? (·.covers c.toNat) = none)
    (hspecial : lowerSpecial.find? (·.1 == c.toNat) = none) : IsLower c := by
  intro r hr
  rcases List.mem_cons.1 hr with rfl | hr
  · exact CaseRun.covers_eq_false (.inr (Nat.lt_of_lt_of_le (by decide) hascii))
  · rcases List.mem_cons.1 hr with rfl | hr
    · have hne := Array.find?_eq_none.1 hspecial (0x130, [0x69, 0x307]) (by simp [lowerSpecial])
      simp only [beq_iff_eq] at hne
      exact CaseRun.covers_eq_false (by simp only; omega)
    · have hcovers := Array.find?_eq_none.1 hruns r (Array.mem_toList_iff.1 hr)
      simpa using hcovers

theorem isLower_of_ascii (hascii : c.toNat < 0x80)
    (hupper : asciiRun.covers c.toNat = false) : IsLower c := by
  intro r hr
  rcases List.mem_cons.1 hr with rfl | hr
  · exact hupper
  · have hfirst : ∀ r ∈ ⟨0x130, 0x130, 1, 0⟩ :: lowerRuns.toList, 0x80 ≤ r.first := by
      decide +kernel
    exact CaseRun.covers_eq_false (.inl (Nat.lt_of_lt_of_le hascii (hfirst r hr)))

/-- What becomes of a character in lower case: a capital goes where its run takes it, one capital
becomes two characters, and what is no capital stays. -/
theorem lowerChar_cases (c : Char) :
    (∃ r ∈ asciiRun :: lowerRuns.toList, r.covers c.toNat = true ∧
      lowerChar c = [Char.ofNat (r.image c.toNat)]) ∨
    lowerChar c = ['i', '\u0307'] ∨ IsLower c ∧ lowerChar c = [c] := by
  rw [lowerChar]
  split
  · rename_i hascii
    by_cases hupper : c.val ≥ 'A'.val ∧ c.val ≤ 'Z'.val
    · have hlower : c.toLower = ⟨c.val + ('a'.val - 'A'.val), _⟩ := dif_pos hupper
      have hle : 0x41 ≤ c.toNat ∧ c.toNat ≤ 0x5A := hupper
      have hcovers : asciiRun.covers c.toNat = true := by
        simp [CaseRun.covers, asciiRun, hle, Nat.mod_one]
      have himage : (c.val + ('a'.val - 'A'.val)).toNat = asciiRun.image c.toNat := by
        rw [UInt32.toNat_add, show ('a'.val - 'A'.val).toNat = 32 by decide]
        simp only [CaseRun.image, asciiRun, Char.toNat] at hle ⊢
        omega
      refine .inl ⟨asciiRun, List.mem_cons_self .., hcovers, ?_⟩
      rw [← himage, hlower]
      exact congrArg ([·]) (Char.ofNat_toNat ⟨_, _⟩).symm
    · have hlower : c.toLower = c := dif_neg hupper
      have hle : ¬(0x41 ≤ c.toNat ∧ c.toNat ≤ 0x5A) := hupper
      refine .inr (.inr ⟨isLower_of_ascii hascii ?_, congrArg ([·]) hlower⟩)
      exact CaseRun.covers_eq_false (by simp only [asciiRun]; omega)
  · rename_i hascii
    rw [mapCase]
    split
    · rename_i r hr
      have hmem := Array.mem_of_find?_eq_some hr
      have hcovers := Array.find?_some hr
      exact .inl ⟨r, List.mem_cons_of_mem _ hmem.val, hcovers, rfl⟩
    · rename_i hruns
      split
      · rename_i x image hx
        have hmem := Array.mem_of_find?_eq_some hx
        simp only [lowerSpecial, List.mem_toArray, List.mem_singleton, Prod.mk.injEq] at hmem
        obtain ⟨-, rfl⟩ := hmem
        exact .inr (.inl rfl)
      · rename_i hspecial
        exact .inr (.inr ⟨isLower_of_find?_eq_none (by omega) hruns hspecial, rfl⟩)

/-- A character becomes characters that are not in unreached runs, but for one that is no capital
and stays. -/
theorem mem_lowerChar (h : isUnreached rs = true) (hd : d ∈ lowerChar c) :
    IsLower c ∧ d = c ∨ ∀ r ∈ rs, r.covers d.toNat = false := by
  rcases lowerChar_cases c with ⟨r, hr, hcovers, heq⟩ | heq | ⟨hlower, heq⟩
  · rw [heq, List.mem_singleton] at hd
    exact .inr (hd ▸ covers_image h hr hcovers)
  · have hdotted : ∀ d ∈ ['i', '\u0307'], d ∈ irregular :=
      List.forall_mem_cons.2 ⟨by decide, List.forall_mem_singleton.2 (by decide)⟩
    exact .inr (covers_of_isUnreached h (hdotted d (heq ▸ hd)))
  · rw [heq, List.mem_singleton] at hd
    exact .inl ⟨hlower, hd⟩

theorem lowerChar_ne_nil (c : Char) : lowerChar c ≠ [] := by
  rcases lowerChar_cases c with ⟨r, -, -, heq⟩ | heq | ⟨-, heq⟩ <;> simp [heq]

/-! ## Texts -/

theorem exists_lowerFrom_cons (h : isUnreached rs = true) (before : List Char) (c : Char)
    (cs : List Char) : ∃ image, lowerFrom before (c :: cs) = image ++ lowerFrom (c :: before) cs ∧
      image ≠ [] ∧
      ∀ d ∈ image, IsLower c ∧ d = c ∨ ∀ r ∈ rs, r.covers d.toNat = false := by
  refine ⟨_, lowerFrom.eq_2 .., ?_⟩
  split
  · refine ⟨List.cons_ne_nil _ _, fun d hd => .inr (covers_of_isUnreached h ?_)⟩
    rw [List.mem_singleton] at hd
    subst hd
    split <;> decide
  · exact ⟨lowerChar_ne_nil c, fun d hd => mem_lowerChar h hd⟩

theorem mem_lowerFrom (h : isUnreached rs = true) (hd : d ∈ lowerFrom before cs) :
    IsLower d ∧ d ∈ cs ∨ ∀ r ∈ rs, r.covers d.toNat = false := by
  induction cs generalizing before with
  | nil => cases hd
  | cons c cs ih =>
    obtain ⟨image, heq, -, himage⟩ := exists_lowerFrom_cons h before c cs
    rw [heq] at hd
    rcases List.mem_append.1 hd with hd | hd
    · refine (himage d hd).imp_left ?_
      rintro ⟨hlower, rfl⟩
      exact ⟨hlower, List.mem_cons_self ..⟩
    · exact (ih hd).imp_left (And.imp_right (List.mem_cons_of_mem c))

theorem isLower_of_mem_lowerFrom (h : d ∈ lowerFrom before cs) : IsLower d := by
  rcases mem_lowerFrom isUnreached_capitalRuns h with hd | hd
  · exact hd.1
  · exact hd

theorem mem_lower (h : isUnreached rs = true) (hd : d ∈ (lower s).toList) :
    d ∈ s.toList ∨ ∀ r ∈ rs, r.covers d.toNat = false := by
  rw [lower, String.toList_ofList] at hd
  exact (mem_lowerFrom h hd).imp_left And.right

theorem head?_lower (h : isUnreached rs = true) (hd : (lower s).toList.head? = some d) :
    s.toList.head? = some d ∨ ∀ r ∈ rs, r.covers d.toNat = false := by
  rw [lower, String.toList_ofList] at hd
  cases hs : s.toList with
  | nil =>
    rw [hs] at hd
    cases hd
  | cons c cs =>
    obtain ⟨image, heq, hne, himage⟩ := exists_lowerFrom_cons h [] c cs
    obtain ⟨e, image, rfl⟩ := List.exists_cons_of_ne_nil hne
    rw [hs, heq] at hd
    cases hd
    refine (himage d (List.mem_cons_self ..)).imp_left ?_
    rintro ⟨-, rfl⟩
    rfl

theorem toList_lower_ne_nil (h : s.toList ≠ []) : (lower s).toList ≠ [] := by
  obtain ⟨c, cs, hs⟩ := List.exists_cons_of_ne_nil h
  obtain ⟨image, heq, hne, -⟩ := exists_lowerFrom_cons isUnreached_capitalRuns [] c cs
  rw [lower, String.toList_ofList, hs, heq]
  exact fun hnil => hne (List.append_eq_nil_iff.1 hnil).1

theorem lowerFrom_eq_self {cs : List Char} (h : ∀ c ∈ cs, IsLower c) (before : List Char) :
    lowerFrom before cs = cs := by
  induction cs generalizing before with
  | nil => rfl
  | cons c cs ih =>
    have hc := h c (List.mem_cons_self ..)
    have hsigma : c ≠ capitalSigma := by
      rintro rfl
      exact absurd hc (by decide)
    rw [lowerFrom, if_neg hsigma, lowerChar_eq_self hc,
      ih fun d hd => h d (List.mem_cons_of_mem _ hd)]
    rfl

theorem lower_lower (s : String) : lower (lower s) = lower s := by
  rw [lower, lower, String.toList_ofList,
    lowerFrom_eq_self fun _ h => isLower_of_mem_lowerFrom h]

end Text

/-- A filter has the same name in lower case. -/
theorem Registry.get?_lower (r : Registry) (name : String) :
    r.get? (Text.lower name) = r.get? name := by
  rw [get?, get?, Text.lower_lower]

end FormLetter
