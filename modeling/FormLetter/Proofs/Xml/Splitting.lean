import FormLetter.Proofs.Xml.Markup
import FormLetter.Proofs.Xml.Outline
import Mathlib.Data.List.Basic

/-!
# Tags that markup splits

Markup may be taken out of a tag if it splits nothing but the text: both braces stand in the text
of the same elements, and between them elements are only closed and opened again, or are empty
(`WellSplit`). Then the text is a document without this markup as it was one with it, and the text
in it is the same (`exists_parse_mergeTags`). The first markup after a brace may also open an
element that closes far behind the tag; there the rest is no document (`insertedRun_mergeTags`).
-/

namespace FormLetter.Xml

open FormLetter.Text

/-- Markup that is a token, whatever follows. The first angle bracket is left out. -/
def IsMarkup (m : List Char) (t : Token) : Prop :=
  ∀ rest, Token.read ('<' :: (m ++ rest)) = .ok (some (t, rest))

/-- A text of whole tokens, or of tokens and the front of a text, leads from the names of the open
elements to others. -/
inductive Leads : List (List Char) → List Char → List (List Char) → Prop where
  | nil {o : List (List Char)} : Leads o [] o
  | char {o o₁ : List (List Char)} {c : Char} {cs : List Char} :
    c ≠ '<' → Leads o cs o₁ → Leads o (c :: cs) o₁
  | markup {o o₁ o₂ : List (List Char)} {m cs : List Char} {t : Token} {e : Event} :
    IsMarkup m t → Event.ofToken o t = .ok (e, o₁) → Leads o₁ cs o₂ → Leads o ('<' :: (m ++ cs)) o₂

/-- Nothing but the open elements changes with the token: it has no text, and it is no root. -/
def Removable (o : List (List Char)) : Token → Prop
  | .text _ => False
  | .data written => written = [] ∨ o = []
  | .aside | .declaration _ => True
  | .opening .. | .empty .. | .closing _ => o ≠ []

/-- A text that leads from the names of the open elements to others, and whose markup, up to the
next angle bracket each, may be taken out. -/
inductive Splits : List (List Char) → List Char → List (List Char) → Prop where
  | nil {o : List (List Char)} : Splits o [] o
  | char {o o₁ : List (List Char)} {c : Char} {cs : List Char} :
    c ≠ '<' → Splits o cs o₁ → Splits o (c :: cs) o₁
  | markup {o o₁ o₂ : List (List Char)} {m cs : List Char} {t : Token} {e : Event} :
    '>' ∉ m → IsMarkup (m ++ ['>']) t → Event.ofToken o t = .ok (e, o₁) → Removable o t →
    Splits o₁ cs o₂ → Splits o ('<' :: (m ++ '>' :: cs)) o₂

/-- Markup between two braces splits a text: the same elements are open before and after it. -/
def WellSplit (o : List (List Char)) (cs : List Char) : Prop :=
  ∀ front inside back, cs = front ++ '\x7b' :: (inside ++ '\x7d' :: back) → NoBraces inside →
    withoutMarkup inside ≠ inside → ∃ o₁, Leads o front o₁ ∧ Splits o₁ inside o₁

variable {o o₁ o₂ : List (List Char)} {cs ds : List Char}

theorem Leads.append (h : Leads o cs o₁) (h' : Leads o₁ ds o₂) : Leads o (cs ++ ds) o₂ := by
  induction h with
  | nil => exact h'
  | char hc _ ih => exact .char hc (ih h')
  | markup hm he _ ih =>
    rw [List.cons_append, List.append_assoc]
    exact .markup hm he (ih h')

theorem Leads.of_cons {c : Char} (hc : c ≠ '<') (h : Leads o (c :: cs) o₁) : Leads o cs o₁ := by
  generalize htext : c :: cs = text at h
  cases h with
  | nil => cases htext
  | char _ h =>
    cases htext
    exact h
  | markup => exact absurd (List.cons.inj htext).1 hc

theorem Leads.of_append (h : Leads o cs o₁) (h' : Leads o (cs ++ ds) o₂) : Leads o₁ ds o₂ := by
  induction h with
  | nil => exact h'
  | char hc _ ih => exact ih (h'.of_cons hc)
  | @markup _ _ _ m cs t e hm he _ ih =>
    have hread : Token.read ('<' :: (m ++ cs) ++ ds) = .ok (some (t, cs ++ ds)) := by
      rw [List.cons_append, List.append_assoc, hm]
    generalize htext : '<' :: (m ++ cs) ++ ds = text at h' hread
    cases h' with
    | nil => cases htext
    | char hc' => exact absurd (List.cons.inj htext).1.symm hc'
    | markup hm' he' hrest =>
      cases hread.symm.trans (hm' _)
      cases he.symm.trans he'
      exact ih hrest

theorem Splits.leads (h : Splits o cs o₁) : Leads o cs o₁ := by
  induction h with
  | nil => exact .nil
  | char hc _ ih => exact .char hc ih
  | @markup _ _ _ m cs t e _ hm he _ _ ih =>
    have heq : m ++ '>' :: cs = (m ++ ['>']) ++ cs := by simp
    rw [heq]
    exact .markup hm he ih

theorem eq_nil_of_removable {t : Token} {e : Event} (hr : Removable [] t)
    (he : Event.ofToken [] t = .ok (e, o)) : o = [] := by
  cases t with
  | text w => exact hr.elim
  | data w | aside =>
    cases he
    rfl
  | declaration content =>
    obtain ⟨d, -, he⟩ := Except.bind_eq_ok.1 he
    cases he
    rfl
  | opening name content | empty name content | closing name => exact absurd rfl hr

theorem Splits.eq_nil (h : Splits o cs o₁) (ho : o = []) : o₁ = [] := by
  induction h with
  | nil => exact ho
  | char _ _ ih => exact ih ho
  | markup _ _ he hr _ ih =>
    subst ho
    exact ih (eq_nil_of_removable hr he)

theorem WellSplit.after {front inside back : List Char}
    (h : WellSplit o (front ++ '\x7b' :: (inside ++ '\x7d' :: back))) (hfront : Leads o front o₁)
    (hinside : Splits o₁ inside o₁) : WellSplit o₁ back := by
  intro front' inside' back' hback hno hne
  have htag : Leads o (front ++ '\x7b' :: (inside ++ ['\x7d'])) o₁ :=
    hfront.append (.char (by decide) (hinside.leads.append (.char (by decide) .nil)))
  obtain ⟨o₂, hleads, hsplits⟩ :=
    h (front ++ '\x7b' :: (inside ++ ['\x7d']) ++ front') inside' back' (by simp [hback]) hno hne
  exact ⟨o₂, htag.of_append hleads, hsplits⟩

/-! ## Tags as markup -/

section Tags

variable {name w : List Char}

theorem isMarkup_opening (h : IsName name) : IsMarkup (name ++ ['>']) (.opening name []) := by
  intro rest
  have hread := Token.read_opening h (List.forall_mem_nil Attribute.Readable) rest
  rwa [List.flatMap_nil, List.append_nil, List.append_cons] at hread

theorem isMarkup_empty (h : IsName name) : IsMarkup (name ++ ['/'] ++ ['>']) (.empty name []) := by
  intro rest
  have hread := Token.read_empty h (List.forall_mem_nil Attribute.Readable) rest
  rwa [List.flatMap_nil, List.append_nil, List.append_cons, List.append_cons] at hread

theorem isMarkup_closing (h : IsName name) :
    IsMarkup ('/' :: name ++ ['>']) (.closing name) := by
  intro rest
  rw [List.append_assoc]
  exact Token.read_closing h rest

theorem elementAttributes_nil : elementAttributes [] = .ok [] := by
  rw [elementAttributes, attributesOf_nil]
  rfl

theorem ofToken_opening (o : List (List Char)) (name : List Char) :
    Event.ofToken o (.opening name []) = .ok (.start (String.ofList name) [], name :: o) := by
  rw [Event.ofToken, elementAttributes_nil]
  rfl

theorem ofToken_empty (o : List (List Char)) (name : List Char) :
    Event.ofToken o (.empty name []) = .ok (.empty (String.ofList name) [], o) := by
  rw [Event.ofToken, elementAttributes_nil]
  rfl

theorem Leads.opening (h : IsName name) (hcs : Leads (name :: o) cs o₁) :
    Leads o ('<' :: (name ++ '>' :: cs)) o₁ := by
  rw [List.append_cons]
  exact .markup (isMarkup_opening h) (ofToken_opening o name) hcs

theorem Splits.text (h : '<' ∉ w) (hcs : Splits o cs o₁) : Splits o (w ++ cs) o₁ := by
  induction w with
  | nil => exact hcs
  | cons c w ih =>
    obtain ⟨hc, hw⟩ := not_or.1 (mt List.mem_cons.2 h)
    exact .char (Ne.symm hc) (ih hw)

theorem Splits.opening (h : IsName name) (ho : o ≠ []) (hcs : Splits (name :: o) cs o₁) :
    Splits o ('<' :: (name ++ '>' :: cs)) o₁ :=
  .markup (h.not_mem rfl) (isMarkup_opening h) (ofToken_opening o name) ho hcs

theorem Splits.empty (h : IsName name) (ho : o ≠ []) (hcs : Splits o cs o₁) :
    Splits o ('<' :: (name ++ '/' :: '>' :: cs)) o₁ := by
  have hclose : '>' ∉ name ++ ['/'] := by simp [h.not_mem (c := '>') rfl]
  rw [List.append_cons]
  exact .markup hclose (isMarkup_empty h) (ofToken_empty o name) ho hcs

theorem Splits.closing (h : IsName name) (hcs : Splits o cs o₁) :
    Splits (name :: o) ('<' :: '/' :: (name ++ '>' :: cs)) o₁ := by
  have he : Event.ofToken (name :: o) (.closing name) = .ok (.finish, o) := by
    rw [Event.ofToken, if_pos rfl]
  have hclose : '>' ∉ '/' :: name := by simp [h.not_mem (c := '>') rfl]
  exact .markup hclose (isMarkup_closing h) he (List.cons_ne_nil _ _) hcs

end Tags

namespace Outline

variable {s s₁ : Outline} {p q : List Char}

theorem opened_of_say (h : s.say p = some s₁) : s₁.opened = s.opened := by
  rw [say] at h
  split at h
  · cases h
    rfl
  · obtain ⟨w, -, rfl⟩ := Option.map_eq_some_iff.1 h
    rfl

theorem say_nil (s : Outline) : s.say [] = some s := by
  have hnil : unescape? [] = some [] := by rw [unescape?]
  rw [say, hnil]
  split
  · rfl
  · simp

theorem say_append (h : s.say p = some s₁) (q : List Char) : s.say (p ++ q) = s₁.say q := by
  have hopened := opened_of_say h
  unfold say at h ⊢
  rw [hopened]
  split at h
  · rename_i ho
    cases h
    rw [if_pos ho, if_pos ho]
  · rename_i ho
    obtain ⟨w, hw, rfl⟩ := Option.map_eq_some_iff.1 h
    rw [if_neg ho, if_neg ho, unescape?_append hw, Option.map_map]
    congr 1
    funext ds
    simp [Function.comp]

theorem say_reopened (h : o = [] ↔ s.opened = []) (q : List Char) :
    { s with opened := o }.say q = (s.say q).map fun s => { s with opened := o } := by
  by_cases ho : s.opened = []
  · rw [say, if_pos (h.2 ho), say, if_pos ho]
    rfl
  · rw [say, if_neg (mt h.1 ho), say, if_neg ho]
    cases unescape? q <;> rfl

theorem opened_of_complete? (h : s.complete? = some s₁) : s₁.opened = s.opened := by
  rw [complete?] at h
  split at h
  · split at h
    · cases h
    · cases h
      rfl
  · cases h
    rfl

theorem closing_of_next? {expected name text : List Char} {opened : List (List Char)}
    {rooted : Bool} (h : next? ⟨expected :: opened, rooted, text⟩ (.closing name) = some s₁) :
    name = expected ∧ complete? ⟨opened, rooted, text⟩ = some s₁ :=
  Option.ite_none_right_eq_some.1 h

/-- The open elements after a token are those of its event. -/
theorem opened_of_next? {t : Token} {e : Event} (h : s.next? t = some s₁)
    (he : Event.ofToken s.opened t = .ok (e, o)) : s₁.opened = o := by
  cases t with
  | text w =>
    cases he
    exact opened_of_say h
  | data w =>
    cases he
    cases h
    split <;> rfl
  | aside =>
    cases he
    cases h
    rfl
  | declaration content =>
    obtain ⟨d, -, he⟩ := Except.bind_eq_ok.1 he
    obtain ⟨d, -, rfl⟩ := Option.map_eq_some_iff.1 h
    cases he
    rfl
  | opening name content =>
    obtain ⟨attributes, -, he⟩ := Except.bind_eq_ok.1 he
    obtain ⟨attributes, -, rfl⟩ := Option.map_eq_some_iff.1 h
    cases he
    rfl
  | empty name content =>
    obtain ⟨attributes, -, he⟩ := Except.bind_eq_ok.1 he
    obtain ⟨attributes, -, h⟩ := Option.bind_eq_some_iff.1 h
    cases he
    exact opened_of_complete? h
  | closing name =>
    obtain ⟨opened, rooted, text⟩ := s
    cases opened with
    | nil => cases h
    | cons expected opened =>
      obtain ⟨rfl, hcomplete⟩ := closing_of_next? h
      rw [Event.ofToken, if_pos rfl] at he
      cases he
      exact opened_of_complete? hcomplete

/-- A token that may be taken out changes the open elements only. -/
theorem eq_of_removable {t : Token} {e : Event} (h : s.next? t = some s₁)
    (he : Event.ofToken s.opened t = .ok (e, o)) (hr : Removable s.opened t)
    (ho : o = [] → s.opened = []) : s₁ = { s with opened := o } := by
  have hopened := opened_of_next? h he
  have hcomplete : ∀ s' : Outline, s'.opened ≠ [] → s'.complete? = some s₁ → s₁ = s' := by
    intro s' hne h
    rw [complete?, if_neg hne] at h
    exact (Option.some.inj h).symm
  cases t with
  | text w => exact hr.elim
  | data w =>
    cases he
    cases h
    split
    · rfl
    · rename_i hne
      obtain rfl := hr.resolve_right hne
      rw [List.append_nil]
  | aside =>
    cases he
    cases h
    rfl
  | declaration content =>
    obtain ⟨d, -, rfl⟩ := Option.map_eq_some_iff.1 h
    rw [← hopened]
  | opening name content =>
    obtain ⟨attributes, -, rfl⟩ := Option.map_eq_some_iff.1 h
    rw [← hopened]
  | empty name content =>
    obtain ⟨attributes, -, h⟩ := Option.bind_eq_some_iff.1 h
    rw [hcomplete s hr h] at hopened ⊢
    rw [← hopened]
  | closing name =>
    obtain ⟨opened, rooted, text⟩ := s
    cases opened with
    | nil => cases h
    | cons expected opened =>
      obtain ⟨rfl, h'⟩ := closing_of_next? h
      have hsame : s₁.opened = opened := opened_of_complete? h'
      have hne : opened ≠ [] := fun hnil => hr (ho (hopened ▸ hsame.trans hnil))
      rw [hcomplete ⟨opened, rooted, text⟩ hne h', ← hopened, hsame]

end Outline

/-! ## Runs over texts -/

variable {s s₁ f : Outline} {p q rest : List Char}

theorem runs_append (hq : '<' ∉ q) (hcs : AtMarkup cs) :
    Runs s (q ++ cs) f ↔ ∃ s₁, s.say q = some s₁ ∧ Runs s₁ cs f := by
  by_cases hnil : q = []
  · subst hnil
    constructor
    · exact fun h => ⟨s, s.say_nil, h⟩
    · rintro ⟨s₁, hsay, h⟩
      cases s.say_nil.symm.trans hsay
      exact h
  · exact Runs.of_read_eq (Token.read_text hnil hq hcs)

theorem exists_eq_append_atMarkup (cs : List Char) :
    ∃ w ds, cs = w ++ ds ∧ '<' ∉ w ∧ AtMarkup ds := by
  induction cs with
  | nil => exact ⟨[], [], rfl, List.not_mem_nil, .inl rfl⟩
  | cons c cs ih =>
    by_cases hc : c = '<'
    · exact ⟨[], c :: cs, rfl, List.not_mem_nil, .inr ⟨cs, by rw [hc]⟩⟩
    · obtain ⟨w, ds, rfl, hw, hds⟩ := ih
      exact ⟨c :: w, ds, rfl, by simp [Ne.symm hc, hw], hds⟩

theorem Runs.say (hp : '<' ∉ p) (hsay : s.say p = some s₁) (h : Runs s₁ cs f) :
    Runs s (p ++ cs) f := by
  obtain ⟨w, ds, rfl, hw, hds⟩ := exists_eq_append_atMarkup cs
  obtain ⟨s₂, hsay', h⟩ := (runs_append hw hds).1 h
  have hpw : '<' ∉ p ++ w := by simp [hp, hw]
  rw [← List.append_assoc]
  exact (runs_append hpw hds).2 ⟨s₂, (Outline.say_append hsay w).trans hsay', h⟩

/-- What runs over a text that leads on comes to its end, with some text that is not yet said. From
there on anything may follow. -/
theorem Leads.exists_runs (h : Leads o cs o₁) (hs : s.opened = o) (hq : '<' ∉ q)
    (hruns : Runs s (q ++ (cs ++ rest)) f) :
    ∃ s₁ q₁, s₁.opened = o₁ ∧ '<' ∉ q₁ ∧ Runs s₁ (q₁ ++ rest) f ∧
      ∀ rest' f', Runs s₁ (q₁ ++ rest') f' → Runs s (q ++ (cs ++ rest')) f' := by
  induction h generalizing s q with
  | nil => exact ⟨s, q, hs, hq, hruns, fun _ _ h => h⟩
  | @char _ _ c cs hc _ ih =>
    have heq : ∀ rest, q ++ (c :: cs ++ rest) = q ++ [c] ++ (cs ++ rest) := by simp
    have hqc : '<' ∉ q ++ [c] := by simp [hq, Ne.symm hc]
    simp only [heq] at hruns ⊢
    exact ih hs hqc hruns
  | @markup _ _ _ m cs t e hm he _ ih =>
    subst hs
    simp only [List.cons_append, List.append_assoc] at hruns ⊢
    obtain ⟨s₁, hsay, hruns⟩ := (runs_append hq (.inr ⟨_, rfl⟩)).1 hruns
    obtain ⟨s₂, hnext, hruns⟩ := (Runs.of_read_eq (hm _)).1 hruns
    rw [← Outline.opened_of_say hsay] at he
    obtain ⟨s', q', ho, hq', hruns, hback⟩ :=
      ih (q := []) (Outline.opened_of_next? hnext he) List.not_mem_nil hruns
    refine ⟨s', q', ho, hq', hruns, fun rest' f' h => ?_⟩
    exact (runs_append hq (.inr ⟨_, rfl⟩)).2
      ⟨s₁, hsay, (Runs.of_read_eq (hm _)).2 ⟨s₂, hnext, hback rest' f' h⟩⟩

theorem Splits.not_mem_withoutMarkup (h : Splits o cs o₁) : '<' ∉ withoutMarkup cs := by
  induction h with
  | nil =>
    rw [withoutMarkup_nil]
    exact List.not_mem_nil
  | char hc _ ih =>
    rw [withoutMarkup_cons hc, List.mem_cons, not_or]
    exact ⟨Ne.symm hc, ih⟩
  | markup hm _ _ _ _ ih =>
    rw [withoutMarkup_markup hm]
    exact ih

/-- What runs over a text that markup splits runs over it without the markup. Of the text, `p` has
been said since the first markup, and `q` has not. -/
theorem Splits.runs {s₀ : Outline} (h : Splits o cs s₀.opened) (hs : s.opened = o)
    (ho : o = [] ↔ s₀.opened = []) (hp : '<' ∉ p) (hq : '<' ∉ q)
    (hsay : s₀.say p = some { s with opened := s₀.opened })
    (hruns : Runs s (q ++ (cs ++ rest)) f) :
    Runs s₀ (p ++ (q ++ (withoutMarkup cs ++ rest))) f := by
  generalize ho₁ : s₀.opened = o₁ at h
  induction h generalizing s p q with
  | nil =>
    subst ho₁
    rw [← hs] at hsay
    rw [withoutMarkup_nil]
    exact hruns.say hp hsay
  | @char _ _ c cs hc _ ih =>
    have heq : ∀ rest, q ++ (c :: rest) = q ++ [c] ++ rest := by simp
    have hqc : '<' ∉ q ++ [c] := by simp [hq, Ne.symm hc]
    rw [withoutMarkup_cons hc]
    rw [List.cons_append, heq] at hruns ⊢
    exact ih hs ho hp hqc hsay hruns ho₁
  | @markup _ o' _ m cs t e hm hread he hr hrest ih =>
    subst hs
    have hsplit : q ++ ('<' :: (m ++ '>' :: cs) ++ rest) =
      q ++ ('<' :: (m ++ ['>'] ++ (cs ++ rest))) := by simp
    rw [hsplit] at hruns
    obtain ⟨s₁, hq₁, hruns⟩ := (runs_append hq (.inr ⟨_, rfl⟩)).1 hruns
    obtain ⟨s₂, hnext, hruns⟩ := (Runs.of_read_eq (hread _)).1 hruns
    have hopened := Outline.opened_of_say hq₁
    have ho' : o' = [] → s.opened = [] := by
      rintro rfl
      exact ho.2 (ho₁.trans (hrest.eq_nil rfl))
    have hempty : o' = [] ↔ s₀.opened = [] := by
      refine ⟨fun h => ho.1 (ho' h), fun h => ?_⟩
      rw [ho.2 h] at he hr
      exact eq_nil_of_removable hr he
    rw [← hopened] at he hr ho'
    obtain rfl := Outline.eq_of_removable hnext he hr ho'
    have hsaid : s₀.say (p ++ q) = some { s₁ with opened := s₀.opened } := by
      rw [Outline.say_append hsay, Outline.say_reopened ho.symm, hq₁]
      rfl
    have hpq : '<' ∉ p ++ q := by simp [hp, hq]
    rw [withoutMarkup_markup hm, ← List.append_assoc]
    exact ih (s := { s₁ with opened := o' }) (q := []) rfl hempty hpq List.not_mem_nil hsaid hruns
      ho₁

/-! ## Merging -/

/-- What runs over a text runs over it without the markup that splits tags. -/
theorem runs_merged (h : WellSplit s.opened cs) (hq : '<' ∉ q) (hruns : Runs s (q ++ cs) f) :
    Runs s (q ++ merged cs) f := by
  induction hn : cs.length using Nat.strongRecOn generalizing cs s q with
  | ind n ih =>
    rcases merged_cases cs with hsame | ⟨front, inside, back, rfl, hno, hne, hmerged⟩
    · rw [hsame]
      exact hruns
    · obtain ⟨o, hfront, hinside⟩ := h front inside back rfl hno hne
      have hlt : back.length < n := by
        rw [← hn]
        simp only [List.length_append, List.length_cons]
        omega
      obtain ⟨s₁, q₁, rfl, hq₁, hruns, hback⟩ := hfront.exists_runs rfl hq hruns
      have hopen : '<' ∉ q₁ ++ ['\x7b'] := by simp [hq₁]
      have heq : ∀ rest, q₁ ++ '\x7b' :: rest = q₁ ++ ['\x7b'] ++ rest := by simp
      rw [heq] at hruns
      have hjoined := hinside.runs rfl Iff.rfl List.not_mem_nil hopen s₁.say_nil hruns
      have htag : '<' ∉ q₁ ++ ['\x7b'] ++ withoutMarkup inside ++ ['\x7d'] := by
        simp [hq₁, hinside.not_mem_withoutMarkup]
      have hafter := ih _ hlt (h.after hfront hinside) htag (by simpa using hjoined) rfl
      rw [hmerged]
      exact hback _ _ (by simpa using hafter)

theorem withoutMark_cons {c : Char} (hc : c ≠ '\ufeff') (cs : List Char) :
    withoutMark (c :: cs) = c :: cs := by
  rw [withoutMark]
  simpa using hc

theorem withoutMark_merged (cs : List Char) :
    withoutMark (merged cs) = merged (withoutMark cs) := by
  cases cs with
  | nil =>
    have hnil : merged [] = [] := Pattern.replace_of_first?_eq_none rfl
    rw [hnil]
    exact hnil.symm
  | cons c cs =>
    cases hread : readBraces (c :: cs) with
    | some r =>
      obtain ⟨inside, rest⟩ := r
      have htag : merged (c :: cs) = braced (withoutMarkup inside) ++ merged rest :=
        Pattern.replace_cons_of_read_eq_some (p := bracePattern) hread
      obtain ⟨hcs, -⟩ := readBraces_eq_some_iff.1 hread
      have hc : c ≠ '\ufeff' := by
        rw [(List.cons.inj hcs).1]
        decide
      rw [withoutMark_cons hc, htag]
      rfl
    | none =>
      have hcons : merged (c :: cs) = c :: merged cs :=
        Pattern.replace_cons_of_read_eq_none (p := bracePattern) hread
      by_cases hc : c = '\ufeff'
      · subst hc
        rw [hcons]
        rfl
      · rw [hcons, withoutMark_cons hc, withoutMark_cons hc, hcons]

/-- Merging split tags keeps a document a document, and the text in it, where markup in tags splits
nothing but the text. -/
theorem exists_parse_mergeTags {x : String} {document : Document}
    (hx : Document.parse x = .ok document) (h : WellSplit [] (withoutMark x.toList)) :
    ∃ merged, Document.parse (mergeTags x) = .ok merged ∧
      merged.root.textContent = document.root.textContent := by
  have hruns := (exists_parse_iff x _).1 ⟨document, hx, rfl⟩
  refine (exists_parse_iff (mergeTags x) _).2 ?_
  rw [toList_mergeTags, withoutMark_merged]
  exact runs_merged (q := []) h List.not_mem_nil hruns

def twoRuns : String := "<w:p><w:r>\x7bna</w:r><w:r><w:b/>me\x7d</w:r></w:p>"

theorem wellSplit_twoRuns : WellSplit [] (withoutMark twoRuns.toList) := by
  intro front inside back htext hno hne
  have hp : IsName "w:p".toList := by decide
  have hr : IsName "w:r".toList := by decide
  have hb : IsName "w:b".toList := by decide
  have hpieces : withoutMark twoRuns.toList = "<w:p><w:r>".toList ++
      '\x7b' :: ("na</w:r><w:r><w:b/>me".toList ++ '\x7d' :: "</w:r></w:p>".toList) := by decide
  -- there is but one opening brace, and but one closing brace after it
  obtain ⟨rfl, -, hrest⟩ :=
    (List.append_cons_inj_of_notMem (by decide) (by decide)).1 (hpieces.symm.trans htext)
  obtain ⟨rfl, -, rfl⟩ := (List.append_cons_inj_of_notMem (by decide) (by decide)).1 hrest
  refine ⟨["w:r".toList, "w:p".toList], .opening hp (.opening hr .nil), ?_⟩
  exact .text (w := "na".toList) (by decide) (.closing hr (.opening hr (by decide)
    (.empty hb (by decide) (.text (w := "me".toList) (by decide) .nil))))

theorem twoRuns_mergeTags : WellSplit [] (withoutMark twoRuns.toList) ∧
    ∃ document merged, Document.parse twoRuns = .ok document ∧
      Document.parse (mergeTags twoRuns) = .ok merged ∧
        merged.root.textContent = document.root.textContent := by
  have hsome : (Document.parse twoRuns).isOk = true := by decide +kernel
  obtain ⟨document, hdocument⟩ := Except.exists_of_isOk hsome
  obtain ⟨merged, hmerged, htext⟩ := exists_parse_mergeTags hdocument wellSplit_twoRuns
  exact ⟨wellSplit_twoRuns, document, merged, hdocument, hmerged, htext⟩

/-- A tag whose second half stands in an insertion, which closes behind it. -/
def insertedRun : String := "<w:p><w:r>\x7bna</w:r><w:ins><w:r>me\x7d</w:r></w:ins></w:p>"

/-- Without the markup in the tag, the end of the insertion is left without its start. -/
theorem insertedRun_mergeTags :
    (∃ document, Document.parse insertedRun = .ok document) ∧
      ∀ merged, Document.parse (mergeTags insertedRun) ≠ .ok merged := by
  have hsome : (Document.parse insertedRun).isOk = true := by decide +kernel
  have hnone : (Document.parse (mergeTags insertedRun)).isOk = false := by decide +kernel
  refine ⟨Except.exists_of_isOk hsome, fun merged h => ?_⟩
  rw [h] at hnone
  cases hnone

end FormLetter.Xml
