import FormLetter.Proofs.Failure
import FormLetter.Proofs.Xml.Escape
import FormLetter.Xml.Token
import FormLetter.Xml.Writer

/-!
# Tags read back

What is written with names that are no markup, and values without quotes, is read as it was
written: attributes (`attributesOf_write`), the tags of elements with and without content, end
tags, declarations, and the text between them.
-/

namespace FormLetter.Xml

open FormLetter.Text

def isDelimiter (c : Char) : Bool := "<>/=!?&'\"".toList.contains c

def IsName (name : List Char) : Prop :=
  name ≠ [] ∧ ∀ c ∈ name, isSpace c = false ∧ isDelimiter c = false

instance (name : List Char) : Decidable (IsName name) :=
  decidable_of_iff (name ≠ [] ∧ name.all (fun c => !isSpace c && !isDelimiter c) = true) <| by
    simp only [IsName, List.all_eq_true, Bool.and_eq_true, Bool.not_eq_true']

variable {name content rest w : List Char} {as : List Attribute}

theorem IsName.exists_cons (h : IsName name) : ∃ c cs, name = c :: cs := by
  cases name with
  | nil => exact absurd rfl h.1
  | cons c cs => exact ⟨c, cs, rfl⟩

theorem IsName.not_mem (h : IsName name) {c : Char} (hc : isDelimiter c = true) : c ∉ name :=
  fun hm => absurd (h.2 c hm).2 (by rw [hc]; exact Bool.noConfusion)

theorem IsName.getLast? (h : IsName name) :
    ∃ c, name.getLast? = some c ∧ isSpace c = false ∧ isDelimiter c = false := by
  have hlast := List.getLast?_eq_some_getLast h.1
  exact ⟨_, hlast, h.2 _ (List.getLast_mem h.1)⟩

namespace Attribute

/-- An attribute as it is written. -/
def write (a : Attribute) : List Char := ' ' :: a.name ++ "=\"".toList ++ a.value ++ ['"']

def Readable (a : Attribute) : Prop := IsName a.name ∧ '"' ∉ a.value

end Attribute

theorem skipSpaces_cons_of_not_space {c : Char} (hc : isSpace c = false) (cs : List Char) :
    skipSpaces (c :: cs) = c :: cs := by
  rw [skipSpaces, List.dropWhile_cons_of_neg (by rw [hc]; exact Bool.false_ne_true)]

theorem quotedValue?_append (h : '"' ∉ content) (rest : List Char) :
    quotedValue? ('"' :: (content ++ '"' :: rest)) = some (content, rest) :=
  (enclosed?_eq_some_iff rfl).2 ⟨rfl, fun _ hc => bne_iff_ne.2 fun he => h (he ▸ hc)⟩

theorem attributesOf_cons {cs cs' : List Char} {c : Char} {a : Attribute}
    (hs : skipSpaces cs = c :: cs') (h : readAttribute? c cs' = some (a, rest)) :
    attributesOf cs = (a :: (attributesOf rest).1, (attributesOf rest).2) := by
  rw [attributesOf]
  split
  · rename_i hn
    cases hs.symm.trans hn
  · rename_i hs'
    cases hs.symm.trans hs'
    split
    · rename_i hn
      cases h.symm.trans hn
    · rename_i h'
      cases h.symm.trans h'
      rfl

theorem attributesOf_nil : attributesOf [] = ([], true) := by
  rw [attributesOf]
  split
  · rfl
  · rename_i h
    cases h

theorem attributesOf_append {a : Attribute} (h : a.Readable) (rest : List Char) :
    attributesOf (a.write ++ rest) = (a :: (attributesOf rest).1, (attributesOf rest).2) := by
  obtain ⟨name, value⟩ := a
  obtain ⟨hname, hvalue⟩ := h
  obtain ⟨c, cs, rfl⟩ := hname.exists_cons
  have hspace : skipSpaces (' ' :: c :: (cs ++ '=' :: '"' :: (value ++ '"' :: rest))) =
      c :: (cs ++ '=' :: '"' :: (value ++ '"' :: rest)) :=
    skipSpaces_cons_of_not_space (hname.2 c (List.mem_cons_self ..)).1 _
  have hchars : ∀ d ∈ cs, isNameChar d = true := fun d hd => by
    obtain ⟨hd', hdelim⟩ := hname.2 d (List.mem_cons_of_mem _ hd)
    rw [isNameChar, hd', Bool.not_false, Bool.and_true, bne_iff_ne]
    rintro rfl
    cases hdelim
  have hread : readAttribute? c (cs ++ '=' :: '"' :: (value ++ '"' :: rest)) =
      some (⟨c :: cs, value⟩, rest) := by
    have hequals : afterEquals? ('=' :: '"' :: (value ++ '"' :: rest)) =
        some ('"' :: (value ++ '"' :: rest)) := rfl
    rw [readAttribute?, run_append_cons hchars rfl]
    simp only [hequals, quotedValue?_append hvalue, Option.bind_eq_bind, Option.bind_some,
      Option.pure_def]
  have hwrite : Attribute.write ⟨c :: cs, value⟩ ++ rest =
      ' ' :: c :: (cs ++ '=' :: '"' :: (value ++ '"' :: rest)) := by
    simp [Attribute.write]
  rw [hwrite, attributesOf_cons hspace hread]

/-- Attributes that are written are read, each with its name and value. -/
theorem attributesOf_write (h : ∀ a ∈ as, a.Readable) :
    attributesOf (as.flatMap Attribute.write) = (as, true) := by
  induction as with
  | nil => exact attributesOf_nil
  | cons a as ih =>
    obtain ⟨ha, has⟩ := List.forall_mem_cons.1 h
    rw [List.flatMap_cons, attributesOf_append ha, ih has]

/-! ## Attributes of elements and declarations -/

def Attribute.ofPair : String × String → Attribute
  | (name, value) => ⟨name.toList, escape value.toList⟩

theorem flatMap_writeAttribute (pairs : List (String × String)) :
    pairs.flatMap writeAttribute = (pairs.map Attribute.ofPair).flatMap Attribute.write := by
  rw [List.flatMap_map]
  rfl

def AreAttributes (pairs : List (String × String)) : Prop :=
  (∀ a ∈ pairs, IsName a.1.toList) ∧ (pairs.map (·.1)).Nodup

variable {pairs : List (String × String)}

theorem AreAttributes.readable (h : AreAttributes pairs) :
    ∀ a ∈ pairs.map Attribute.ofPair, a.Readable :=
  List.forall_mem_map.2 fun a ha => ⟨h.1 a ha, not_mem_escape (by simp) _⟩

theorem elementAttributes_write (h : AreAttributes pairs) :
    elementAttributes (pairs.flatMap writeAttribute) = .ok pairs := by
  have hnodup : ((pairs.map Attribute.ofPair).map (·.name)).Nodup := by
    have hnames : (pairs.map Attribute.ofPair).map (·.name) =
        (pairs.map (·.1)).map String.toList := by
      simp only [List.map_map]
      rfl
    rw [hnames]
    exact List.Pairwise.map String.toList (fun a b hab => mt String.toList_inj.1 hab) h.2
  rw [elementAttributes, flatMap_writeAttribute, attributesOf_write h.readable]
  simp only
  rw [if_pos hnodup]
  exact mapM_map_eq_ok fun a _ => by simp [Attribute.ofPair, unescape?_escape]

namespace Declaration

variable {d : Declaration}

def optional (name : String) (value : Option String) : List Attribute :=
  (value.map fun v => ⟨name.toList, v.toList⟩).toList

/-- What a declaration says, as it is written. -/
def attributes (d : Declaration) : List Attribute :=
  optional "version" (some d.version) ++
    (optional "encoding" d.encoding ++ optional "standalone" d.standalone)

theorem attributes_eq_cons (d : Declaration) :
    d.attributes = ⟨"version".toList, d.version.toList⟩ ::
      (optional "encoding" d.encoding ++ optional "standalone" d.standalone) := rfl

theorem optional_write (name : String) (value : Option String) :
    (optional name value).flatMap Attribute.write =
      (value.map (writeDeclared name)).getD [] := by
  cases value with
  | none => rfl
  | some v => exact List.append_nil _

theorem write_eq (d : Declaration) :
    d.write = "<?xml".toList ++ d.attributes.flatMap Attribute.write ++ "?>\r\n".toList := by
  unfold write
  simp only [attributes, List.flatMap_append, optional_write, Option.map_some, Option.getD_some,
    List.append_assoc]

/-- The values of a declaration. -/
def fields (d : Declaration) : List String :=
  d.version :: (d.encoding.toList ++ d.standalone.toList)

def isDeclarable (c : Char) : Bool := !("\"'<>?".toList.contains c)

def Plain (d : Declaration) : Prop := ∀ s ∈ d.fields, s.toList.all isDeclarable = true

instance (d : Declaration) : Decidable d.Plain :=
  inferInstanceAs (Decidable (∀ s ∈ d.fields, s.toList.all isDeclarable = true))

theorem Plain.not_mem (h : d.Plain) {s : String} (hs : s ∈ d.fields) {c : Char}
    (hc : isDeclarable c = false) : c ∉ s.toList := by
  intro hm
  have hall := List.all_eq_true.1 (h s hs) c hm
  rw [hc] at hall
  cases hall

def attributeNames : List (List Char) :=
  ["version".toList, "encoding".toList, "standalone".toList]

theorem exists_of_mem_attributes {a : Attribute} (h : a ∈ d.attributes) :
    a.name ∈ attributeNames ∧ ∃ s ∈ d.fields, a.value = s.toList := by
  have hoptional : ∀ (name : String) (value : Option String), a ∈ optional name value →
      a.name = name.toList ∧ ∃ s ∈ value.toList, a.value = s.toList := by
    intro name value hm
    cases value with
    | none => cases hm
    | some v =>
      rw [List.mem_singleton.1 hm]
      exact ⟨rfl, v, List.mem_singleton_self v, rfl⟩
  simp only [attributes, List.mem_append] at h
  simp only [attributeNames, fields, List.mem_cons, List.mem_append, List.not_mem_nil, or_false]
  rcases h with h | h | h
  · obtain ⟨hname, s, hs, hvalue⟩ := hoptional _ _ h
    exact ⟨.inl hname, s, .inl (List.mem_singleton.1 hs), hvalue⟩
  · obtain ⟨hname, s, hs, hvalue⟩ := hoptional _ _ h
    exact ⟨.inr (.inl hname), s, .inr (.inl hs), hvalue⟩
  · obtain ⟨hname, s, hs, hvalue⟩ := hoptional _ _ h
    exact ⟨.inr (.inr hname), s, .inr (.inr hs), hvalue⟩

theorem isName_of_mem_attributeNames : ∀ name ∈ attributeNames, IsName name := by
  decide

theorem Plain.readable (h : d.Plain) : ∀ a ∈ d.attributes, a.Readable := by
  intro a ha
  obtain ⟨hname, s, hs, hvalue⟩ := exists_of_mem_attributes ha
  exact ⟨isName_of_mem_attributeNames _ hname, hvalue ▸ h.not_mem hs rfl⟩

theorem find?_optional_self (name : String) (value : Option String) :
    (optional name value).find? (·.name == name.toList) =
      value.map fun v => ⟨name.toList, v.toList⟩ := by
  cases value with
  | none => rfl
  | some v => exact List.find?_cons_of_pos (beq_self_eq_true _)

theorem find?_optional_of_ne {name other : String} (h : (name.toList == other.toList) = false)
    (value : Option String) : (optional name value).find? (·.name == other.toList) = none := by
  cases value with
  | none => rfl
  | some v => exact List.find?_cons_of_neg (by simp [h])

theorem declared?_of_find? {name : String} {value : Option String}
    (h : as.find? (·.name == name.toList) = value.map fun v => ⟨name.toList, v.toList⟩) :
    declared? name (as, true) = .ok value := by
  rw [declared?, h]
  cases value with
  | none => rfl
  | some v => exact congrArg (fun s => Except.ok (some s)) String.ofList_toList

theorem read_write (h : d.Plain) :
    Declaration.read (d.attributes.flatMap Attribute.write) = .ok d := by
  have hencoding : declared? "encoding" (d.attributes, true) = .ok d.encoding := by
    refine declared?_of_find? ?_
    rw [attributes, List.find?_append, List.find?_append, find?_optional_of_ne (by decide),
      find?_optional_self, find?_optional_of_ne (by decide), Option.none_or, Option.or_none]
  have hstandalone : declared? "standalone" (d.attributes, true) = .ok d.standalone := by
    refine declared?_of_find? ?_
    rw [attributes, List.find?_append, List.find?_append, find?_optional_of_ne (by decide),
      find?_optional_of_ne (by decide), find?_optional_self, Option.none_or, Option.none_or]
  rw [Declaration.read, attributesOf_write h.readable]
  simp only [hencoding, hstandalone]
  rw [attributes_eq_cons]
  simp only [ne_eq, not_true_eq_false, ↓reduceIte]
  rw [String.ofList_toList]
  rfl

end Declaration

/-! ## Tags -/

/-- A piece of a tag does not end it, and takes it from one state of quotes to another. -/
def Passes (quoted : Option Char) (w : List Char) (quoted' : Option Char) : Prop :=
  ∀ cs, tagContent? quoted (w ++ cs) =
    (tagContent? quoted' cs).map fun (content, rest) => (w ++ content, rest)

namespace Passes

variable {q q' q'' : Option Char} {v : List Char}

theorem nil : Passes q [] q := fun cs => by simp

theorem append (hv : Passes q v q') (hw : Passes q' w q'') : Passes q (v ++ w) q'' := fun cs => by
  rw [List.append_assoc, hv, hw, Option.map_map]
  simp only [Function.comp_def, List.append_assoc]

theorem singleton {c : Char} (h : c ≠ '>' ∨ q ≠ none) (hq : quoteAfter c q = q') :
    Passes q [c] q' := fun cs => by
  rw [List.singleton_append, tagContent?, if_neg fun hc => h.elim (· hc.1) (· hc.2), hq]
  rfl

theorem of_forall (h : ∀ c ∈ w, Passes q [c] q) : Passes q w q := by
  induction w with
  | nil => exact nil
  | cons c w ih =>
    obtain ⟨hc, hw⟩ := List.forall_mem_cons.1 h
    exact hc.append (ih hw)

theorem of_ne (h : ∀ c ∈ w, c ≠ '>' ∧ c ≠ '"' ∧ c ≠ '\'') : Passes none w none := by
  refine of_forall fun c hm => ?_
  obtain ⟨hend, hquote, happly⟩ := h c hm
  exact singleton (.inl hend) (if_neg (not_or.2 ⟨hquote, happly⟩))

theorem quoted (h : '"' ∉ w) : Passes none ('"' :: (w ++ ['"'])) none := by
  have hopen : Passes none ['"'] (some '"') := singleton (.inl (by decide)) rfl
  have hinside : Passes (some '"') w (some '"') := of_forall fun c hm =>
    singleton (.inr (Option.some_ne_none _)) (if_neg (ne_of_mem_of_not_mem hm h))
  have hclose : Passes (some '"') ['"'] none := singleton (.inl (by decide)) rfl
  exact hopen.append (hinside.append hclose)

end Passes

theorem IsName.passes (h : IsName name) : Passes none name none :=
  Passes.of_ne fun _ hm => ⟨fun h' => h.not_mem rfl (h' ▸ hm), fun h' => h.not_mem rfl (h' ▸ hm),
    fun h' => h.not_mem rfl (h' ▸ hm)⟩

theorem passes_write (h : ∀ a ∈ as, a.Readable) :
    Passes none (as.flatMap Attribute.write) none := by
  induction as with
  | nil => exact .nil
  | cons a as ih =>
    obtain ⟨⟨hname, hvalue⟩, has⟩ := List.forall_mem_cons.1 h
    have hwrite : a.write = [' '] ++ (a.name ++ (['='] ++ '"' :: (a.value ++ ['"']))) := by
      simp [Attribute.write]
    rw [List.flatMap_cons, hwrite]
    have hspace : Passes none [' '] none := .of_ne (by simp)
    have hequals : Passes none ['='] none := .of_ne (by simp)
    exact (hspace.append (hname.passes.append (hequals.append (.quoted hvalue)))).append (ih has)

theorem readMarkup_of_passes {c : Char} (hc : isDelimiter c = false)
    (h : Passes none (c :: w) none) (rest : List Char) :
    readMarkup (c :: (w ++ '>' :: rest)) = .ok (.ofTag (c :: w), rest) := by
  have hcontent : tagContent? none (c :: (w ++ '>' :: rest)) = some (c :: w, rest) := by
    have hend : tagContent? none ('>' :: rest) = some ([], rest) := by
      rw [tagContent?, if_pos ⟨rfl, rfl⟩]
    rw [← List.cons_append, h, hend]
    simp
  unfold readMarkup
  split
  · rename_i heq
    cases heq
    cases hc
  · rename_i heq
    cases heq
    cases hc
  · rename_i heq
    cases heq
    cases hc
  · rw [hcontent]

theorem Token.read_markup {cs : List Char} (h : cs ≠ []) :
    Token.read ('<' :: cs) = (readMarkup cs).map some := by
  rw [Token.read, if_pos rfl, if_neg (by simpa using h)]

theorem flatMap_write_cases (as : List Attribute) :
    as.flatMap Attribute.write = [] ∨
      ∃ cs, as.flatMap Attribute.write = ' ' :: cs ++ ['"'] := by
  rcases List.eq_nil_or_concat as with rfl | ⟨as, a, rfl⟩
  · exact .inl rfl
  · refine .inr ?_
    cases as with
    | nil => exact ⟨a.name ++ "=\"".toList ++ a.value, by simp [Attribute.write]⟩
    | cons b as =>
      exact ⟨b.name ++ "=\"".toList ++ b.value ++ ['"'] ++ as.flatMap Attribute.write ++
        ' ' :: a.name ++ "=\"".toList ++ a.value, by simp [Attribute.write]⟩

theorem IsName.run (h : IsName name) (cs : List Char) :
    Text.run (!isSpace ·) (name ++ ' ' :: cs) = (name, ' ' :: cs) :=
  run_append_cons (fun c hc => by rw [(h.2 c hc).1]; rfl) rfl

theorem Token.ofTag_opening (h : IsName name) (as : List Attribute) :
    Token.ofTag (name ++ as.flatMap Attribute.write) =
      .opening name (as.flatMap Attribute.write) := by
  obtain ⟨c, hlast, -, hdelim⟩ := h.getLast?
  rcases flatMap_write_cases as with he | ⟨cs, he⟩
  · have hne : name.getLast? ≠ some '/' := by
      rw [hlast]
      rintro ⟨⟩
      cases hdelim
    rw [he, List.append_nil, ofTag, if_neg hne,
      run_of_all fun c hc => by rw [(h.2 c hc).1]; rfl]
  · have hne : (name ++ (' ' :: cs ++ ['"'])).getLast? ≠ some '/' := by
      rw [← List.append_assoc, List.getLast?_concat]
      decide
    rw [he, ofTag, if_neg hne, List.cons_append, h.run]

theorem Token.ofTag_empty (h : IsName name) (as : List Attribute) :
    Token.ofTag (name ++ as.flatMap Attribute.write ++ ['/']) =
      .empty name (as.flatMap Attribute.write) := by
  have hall : ∀ c ∈ name ++ ['/'], (!isSpace c) = true := by
    refine List.forall_mem_append.2 ⟨fun c hc => ?_, fun c hc => ?_⟩
    · rw [(h.2 c hc).1]
      rfl
    · rw [List.mem_singleton.1 hc]
      rfl
  rcases flatMap_write_cases as with he | ⟨cs, he⟩
  · rw [he, List.append_nil, ofTag, if_pos List.getLast?_concat, run_of_all hall]
    simp only [List.dropLast_concat]
  · have hrun : Text.run (!isSpace ·) (name ++ (' ' :: cs ++ ['"']) ++ ['/']) =
        (name, ' ' :: cs ++ ['"'] ++ ['/']) := by
      rw [List.append_assoc]
      exact h.run _
    rw [he, ofTag, if_pos List.getLast?_concat, hrun]
    simp only [List.cons_append]
    rw [← List.cons_append, ← List.cons_append, List.dropLast_concat]

/-! ## Tokens -/

theorem Token.read_tag (h : IsName name) (hw : Passes none w none) (rest : List Char) :
    Token.read ('<' :: (name ++ w ++ '>' :: rest)) =
      .ok (some (.ofTag (name ++ w), rest)) := by
  have hpasses := h.passes.append hw
  obtain ⟨c, cs, rfl⟩ := h.exists_cons
  have hread := readMarkup_of_passes (h.2 c (List.mem_cons_self ..)).2 hpasses rest
  rw [Token.read_markup (by simp)]
  exact congrArg (Except.map some) hread

theorem Token.read_opening (h : IsName name) (has : ∀ a ∈ as, a.Readable) (rest : List Char) :
    Token.read ('<' :: (name ++ as.flatMap Attribute.write ++ '>' :: rest)) =
      .ok (some (.opening name (as.flatMap Attribute.write), rest)) := by
  rw [Token.read_tag h (passes_write has), Token.ofTag_opening h]

theorem Token.read_empty (h : IsName name) (has : ∀ a ∈ as, a.Readable) (rest : List Char) :
    Token.read ('<' :: (name ++ as.flatMap Attribute.write ++ '/' :: '>' :: rest)) =
      .ok (some (.empty name (as.flatMap Attribute.write), rest)) := by
  have hslash : Passes none ['/'] none := .of_ne (by simp)
  have hread := Token.read_tag h ((passes_write has).append hslash) rest
  rw [← List.append_assoc, Token.ofTag_empty h] at hread
  rw [← hread]
  simp

theorem upToClose_append (h : '>' ∉ w) (rest : List Char) :
    upToClose (w ++ '>' :: rest) = (w, rest) := by
  have hall : ∀ c ∈ w, (c != '>') = true := fun c hm => bne_iff_ne.2 (ne_of_mem_of_not_mem hm h)
  have hrun : Text.run (· != '>') (w ++ '>' :: rest) = (w, '>' :: rest) :=
    run_append_cons hall rfl
  obtain ⟨htake, hdrop⟩ := Prod.mk.inj hrun
  rw [upToClose, htake, hdrop]
  rfl

theorem closingName_of_isName (h : IsName name) : closingName name = name := by
  obtain ⟨c, hlast, hspace, -⟩ := h.getLast?
  rw [← List.head?_reverse, List.head?_eq_some_iff] at hlast
  obtain ⟨cs, hreverse⟩ := hlast
  have hdrop : name.reverse.dropWhile isSpace = name.reverse := by
    rw [hreverse, List.dropWhile_cons_of_neg (by rw [hspace]; exact Bool.false_ne_true)]
  rw [closingName, hdrop, List.reverse_reverse]
  split
  · rfl
  · rfl

theorem Token.read_closing (h : IsName name) (rest : List Char) :
    Token.read ('<' :: '/' :: (name ++ '>' :: rest)) = .ok (some (.closing name, rest)) := by
  rw [Token.read_markup (by simp), readMarkup, upToClose_append (h.not_mem rfl)]
  simp only [closingName_of_isName h]
  rfl

/-- The declaration is read up to its end. The line break after it is left. -/
theorem Token.read_declaration {d : Declaration} (h : d.Plain) (rest : List Char) :
    Token.read (d.write ++ rest) =
      .ok (some (.declaration (d.attributes.flatMap Attribute.write), "\r\n".toList ++ rest)) := by
  have hwrite : d.write ++ rest = '<' :: '?' :: ("xml".toList ++
      d.attributes.flatMap Attribute.write ++ ['?'] ++ '>' :: ("\r\n".toList ++ rest)) := by
    rw [d.write_eq]
    simp
  have hclose : '>' ∉ "xml".toList ++ d.attributes.flatMap Attribute.write ++ ['?'] := by
    have hattributes : '>' ∉ d.attributes.flatMap Attribute.write := by
      intro hm
      obtain ⟨a, ha, hm⟩ := List.mem_flatMap.1 hm
      obtain ⟨hm', s, hs, hvalue⟩ := Declaration.exists_of_mem_attributes ha
      have hname := Declaration.isName_of_mem_attributeNames _ hm'
      have hfield : '>' ∉ s.toList := h.not_mem hs rfl
      simp [Attribute.write, hname.not_mem, hvalue, hfield, isDelimiter] at hm
    simp [hattributes]
  obtain ⟨cs, hcs⟩ : ∃ cs, d.attributes.flatMap Attribute.write = ' ' :: cs := ⟨_, rfl⟩
  have hinstruction : Token.ofInstruction ("xml".toList ++ ' ' :: cs) = .declaration (' ' :: cs) :=
    rfl
  rw [hwrite, Token.read_markup (by simp), readMarkup, readInstruction, upToClose_append hclose]
  simp only
  rw [if_pos ⟨by simp, List.getLast?_concat⟩, List.dropLast_concat, hcs, hinstruction]
  rfl

theorem Token.read_text (hne : w ≠ []) (hw : '<' ∉ w) (hrest : rest = [] ∨ ∃ cs, rest = '<' :: cs) :
    Token.read (w ++ rest) = .ok (some (.text w, rest)) := by
  cases w with
  | nil => exact absurd rfl hne
  | cons c w =>
    obtain ⟨hc, hw⟩ := not_or.1 (mt List.mem_cons.2 hw)
    have hall : ∀ c ∈ w, (c != '<') = true := fun c hm => bne_iff_ne.2 fun h => hw (h ▸ hm)
    rw [List.cons_append, Token.read, if_neg (Ne.symm hc)]
    rcases hrest with rfl | ⟨cs, rfl⟩
    · rw [List.append_nil, run_of_all hall]
    · rw [run_append_cons hall rfl]

theorem writeNode_nil (name : String) (pairs : List (String × String)) :
    writeNode (.element name pairs []) =
      '<' :: (name.toList ++ pairs.flatMap writeAttribute ++ "/>".toList) := by
  rw [writeNode]
  simp only [List.cons_append]

theorem writeNode_of_ne_nil {children : List Node} (h : children ≠ []) (name : String)
    (pairs : List (String × String)) :
    writeNode (.element name pairs children) =
      '<' :: (name.toList ++ pairs.flatMap writeAttribute ++
        '>' :: (writeNodes children ++ "</".toList ++ name.toList ++ ['>'])) := by
  obtain ⟨child, others, rfl⟩ := List.exists_cons_of_ne_nil h
  rw [writeNode]
  simp only [writeNodes, List.cons_append, List.append_assoc]

end FormLetter.Xml
