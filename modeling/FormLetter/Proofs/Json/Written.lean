import FormLetter.Json.Reader
import FormLetter.Proofs.Json.Token

/-!
# Written JSON is read back

What the writer writes is the tokens of the syntax of a value, with or without white space
(`Value.writes_compact`, `Value.writes_prettyAt`), so it is one JSON text (`Syntax.parse?_compact`,
`Syntax.parse?_pretty`). A value that the reader takes as it stands comes back unchanged
(`Value.parse?_compact`).
-/

namespace FormLetter.Json

open FormLetter.Number

mutual

/-- The syntax that a value without doubles is written as. -/
def Value.toSyntax : Value → Syntax
  | .number (.integer i) => .number (integerText i)
  | .null | .number (.double _) => .null
  | .bool b => .bool b
  | .text s => .string (partsOf s)
  | .array items => .array (itemsSyntax items)
  | .object fields => .object (fieldsSyntax fields)

def itemsSyntax : List Value → List Syntax
  | [] => []
  | v :: rest => v.toSyntax :: itemsSyntax rest

def fieldsSyntax : List (String × Value) → List (List StringPart × Syntax)
  | [] => []
  | (name, v) :: rest => (partsOf name, v.toSyntax) :: fieldsSyntax rest

end

mutual

/-- There is no double in the value. -/
def Value.Whole : Value → Prop
  | .number (.double _) => False
  | .array items => ItemsWhole items
  | .object fields => FieldsWhole fields
  | _ => True

def ItemsWhole : List Value → Prop
  | [] => True
  | v :: rest => v.Whole ∧ ItemsWhole rest

def FieldsWhole : List (String × Value) → Prop
  | [] => True
  | (_, v) :: rest => v.Whole ∧ FieldsWhole rest

end

variable {rest : List Char} {ts : List Token}

theorem itemsWhole_iff {items : List Value} : ItemsWhole items ↔ ∀ v ∈ items, v.Whole := by
  induction items with
  | nil => exact ⟨fun _ _ h => (List.not_mem_nil h).elim, fun _ => trivial⟩
  | cons v items ih => rw [ItemsWhole, ih, List.forall_mem_cons]

/-- The tokens are written as this text: they are read off it whatever follows, if no number goes
on there. -/
def Writes (text : String) (us : List Token) : Prop :=
  ∀ (rest : List Char) (ts : List Token), stops rest = true → Lexes rest ts →
    Lexes (text.toList ++ rest) (us ++ ts)

mutual

theorem Value.writes_compact : ∀ v : Value, v.Whole → Writes v.compact v.toSyntax.tokens
  | .null, _ => fun _ _ _ h => .token (c := 'n') ['u', 'l', 'l'] rfl rfl h
  | .bool true, _ => fun _ _ _ h => .token (c := 't') ['r', 'u', 'e'] rfl rfl h
  | .bool false, _ => fun _ _ _ h => .token (c := 'f') ['a', 'l', 's', 'e'] rfl rfl h
  | .number (.integer i), _ => fun _ _ hstops h => .integer i hstops h
  | .text s, _ => fun _ _ _ h => .quote s h
  | .array items, hv => fun rest ts _ h => by
    have hitems := writes_compactItems items hv (']' :: rest) (.closeArray :: ts) rfl (.mark h)
    simp only [Value.compact, Value.toSyntax, Syntax.tokens, String.toList_append,
      List.append_assoc, List.cons_append]
    exact .mark hitems
  | .object fields, hv => fun rest ts _ h => by
    have hfields := writes_compactFields fields hv ('\x7d' :: rest) (.closeObject :: ts) rfl
      (.mark h)
    simp only [Value.compact, Value.toSyntax, Syntax.tokens, String.toList_append,
      List.append_assoc, List.cons_append]
    exact .mark hfields

theorem writes_compactItems : ∀ items : List Value, ItemsWhole items →
    Writes (compactItems items) (itemTokens (itemsSyntax items))
  | [], _ => fun _ _ _ h => h
  | [v], hv => v.writes_compact hv.1
  | v :: w :: items, hv => fun rest ts hstops h => by
    have ih := writes_compactItems (w :: items) hv.2 rest ts hstops h
    simp only [compactItems, itemsSyntax, itemTokens, String.toList_append, List.append_assoc,
      List.cons_append]
    exact v.writes_compact hv.1 _ _ rfl (.mark ih)

theorem writes_compactFields : ∀ fields : List (String × Value), FieldsWhole fields →
    Writes (compactFields fields) (fieldTokens (fieldsSyntax fields))
  | [], _ => fun _ _ _ h => h
  | [(name, v)], hv => fun rest ts hstops h => by
    simp only [compactFields, fieldsSyntax, fieldTokens, String.toList_append, List.append_assoc,
      List.cons_append]
    exact .quote name (.mark (v.writes_compact hv.1 rest ts hstops h))
  | (name, v) :: f :: fields, hv => fun rest ts hstops h => by
    have ih := writes_compactFields (f :: fields) hv.2 rest ts hstops h
    simp only [compactFields, fieldsSyntax, fieldTokens, String.toList_append, List.append_assoc,
      List.cons_append]
    exact .quote name (.mark (v.writes_compact hv.1 _ _ rfl (.mark ih)))

end

theorem Lexes.newLine (level : Nat) (h : Lexes rest ts) :
    Lexes ((newLine level).toList ++ rest) ts := by
  have hlayout : ∀ c ∈ List.replicate (2 * level) ' ', isLayout c = true := by
    intro c hc
    rw [List.eq_of_mem_replicate hc]
    rfl
  rw [Json.newLine, String.toList_append, List.append_assoc]
  refine .layout rfl ?_
  change Lexes ((String.ofList (List.replicate (2 * level) ' ')).toList ++ rest) ts
  rw [String.toList_ofList]
  exact lexes_append_of_layout hlayout h

theorem stops_newLine (level : Nat) : stops ((newLine level).toList ++ rest) = true := by
  rw [newLine, String.toList_append]
  rfl

mutual

theorem Value.writes_prettyAt (level : Nat) : ∀ v : Value, v.Whole →
    Writes (v.prettyAt level) v.toSyntax.tokens
  | .null, hv | .bool _, hv | .number _, hv | .text _, hv => by
    have h := Value.writes_compact _ hv
    rw [Value.prettyAt]
    exact h
  | .array [], _ | .object [], _ => by
    intro rest ts _ h
    rw [Value.prettyAt]
    exact .mark (.mark h)
  | .array (v :: items), hv => fun rest ts _ h => by
    have hclose : Lexes (']' :: rest) (.closeArray :: ts) := .mark h
    have hitems := writes_prettyItems (level + 1) (v :: items) hv _ _ (stops_newLine level)
      (hclose.newLine level)
    simp only [Value.prettyAt, Value.toSyntax, Syntax.tokens, String.toList_append,
      List.append_assoc, List.cons_append]
    exact .mark hitems
  | .object (f :: fields), hv => fun rest ts _ h => by
    have hclose : Lexes ('\x7d' :: rest) (.closeObject :: ts) := .mark h
    have hfields := writes_prettyFields (level + 1) (f :: fields) hv _ _ (stops_newLine level)
      (hclose.newLine level)
    simp only [Value.prettyAt, Value.toSyntax, Syntax.tokens, String.toList_append,
      List.append_assoc, List.cons_append]
    exact .mark hfields

theorem writes_prettyItems (level : Nat) : ∀ items : List Value, ItemsWhole items →
    Writes (prettyItems level items) (itemTokens (itemsSyntax items))
  | [], _ => fun _ _ _ h => h
  | [v], hv => fun rest ts hstops h => by
    simp only [prettyItems, itemsSyntax, itemTokens, String.toList_append, List.append_assoc]
    exact .newLine level (v.writes_prettyAt level hv.1 rest ts hstops h)
  | v :: w :: items, hv => fun rest ts hstops h => by
    have ih := writes_prettyItems level (w :: items) hv.2 rest ts hstops h
    simp only [prettyItems, itemsSyntax, itemTokens, String.toList_append, List.append_assoc,
      List.cons_append]
    exact .newLine level (v.writes_prettyAt level hv.1 _ _ rfl (.mark ih))

theorem writes_prettyFields (level : Nat) : ∀ fields : List (String × Value), FieldsWhole fields →
    Writes (prettyFields level fields) (fieldTokens (fieldsSyntax fields))
  | [], _ => fun _ _ _ h => h
  | [(name, v)], hv => fun rest ts hstops h => by
    have hvalue := v.writes_prettyAt level hv.1 rest ts hstops h
    simp only [prettyFields, fieldsSyntax, fieldTokens, String.toList_append, List.append_assoc,
      List.cons_append]
    exact .newLine level (.quote name (.mark (.layout rfl hvalue)))
  | (name, v) :: f :: fields, hv => fun rest ts hstops h => by
    have ih := writes_prettyFields level (f :: fields) hv.2 rest ts hstops h
    simp only [prettyFields, fieldsSyntax, fieldTokens, String.toList_append, List.append_assoc,
      List.cons_append]
    exact .newLine level (.quote name (.mark (.layout rfl
      (v.writes_prettyAt level hv.1 _ _ rfl (.mark ih)))))

end

/-! ## Reading -/

section Layout

variable {layout : List Char} (hlayout : ∀ c ∈ layout, isLayout c = true)
include hlayout

theorem parse?_of_writes {text : String} {s : Syntax} (h : Writes text s.tokens) :
    Syntax.parse? (text.toList ++ layout) = some s := by
  have hlexes := h layout [] (stops_layout hlayout) (lexes_layout hlayout)
  rw [List.append_nil] at hlexes
  exact hlexes.parse?

/-- What is written without white space is one JSON text, also with white space after it. -/
theorem Syntax.parse?_compact {v : Value} (hv : v.Whole) :
    Syntax.parse? (v.compact.toList ++ layout) = some v.toSyntax :=
  parse?_of_writes hlayout (v.writes_compact hv)

theorem Syntax.parse?_pretty {v : Value} (hv : v.Whole) :
    Syntax.parse? (v.pretty.toList ++ layout) = some v.toSyntax :=
  parse?_of_writes hlayout (v.writes_prettyAt 0 hv)

end Layout

theorem charsOf?_partOf (c : Char) (parts : List StringPart) :
    charsOf? (partOf c :: parts) = (charsOf? parts).map (c :: ·) := by
  by_cases hc : c.toNat < 0x20 ∧ c ∉ ['\x08', '\x0c', '\n', '\r', '\t']
  · have hlow : ¬(0xD800 ≤ c.toNat ∧ c.toNat < 0xDC00) := by omega
    have hhigh : ¬(0xDC00 ≤ c.toNat ∧ c.toNat < 0xE000) := by omega
    have hany : ¬(0xD800 ≤ c.toNat ∧ c.toNat < 0xE000) := by omega
    rw [partOf, if_pos hc]
    -- a unit is read together with a unit that follows it
    cases parts with
    | nil => simp only [charsOf?, if_neg hany, Char.ofNat_toNat]
    | cons p parts =>
      cases p with
      | unit n => simp only [charsOf?, if_neg hlow, if_neg hhigh, Char.ofNat_toNat]
      | char d => simp only [charsOf?, if_neg hany, Char.ofNat_toNat]
  · rw [partOf, if_neg hc, charsOf?]

theorem stringOf?_partsOf (s : String) : stringOf? (partsOf s) = some s := by
  have hchars : ∀ cs : List Char, charsOf? (cs.map partOf) = some cs := by
    intro cs
    induction cs with
    | nil => rfl
    | cons c cs ih => rw [List.map_cons, charsOf?_partOf, ih, Option.map_some]
  rw [stringOf?, partsOf, hchars, Option.map_some, String.ofList_toList]

theorem number?_integerText {i : Int} (h : -(Nat.pow 2 63 : Int) ≤ i ∧ i < (Nat.pow 2 64 : Int)) :
    (integerText i).number? = some (.integer i) := by
  cases i with
  | ofNat n =>
    have hn : n < Nat.pow 2 64 := Int.ofNat_lt.1 h.2
    rw [integerText_ofNat]
    simp only [NumberText.number?, digitsValue_decimalDigits]
    exact if_pos (decide_eq_true hn)
  | negSucc n =>
    have hn : n + 1 ≤ Nat.pow 2 63 := by
      have := h.1
      omega
    rw [integerText_negSucc]
    simp only [NumberText.number?, digitsValue_decimalDigits]
    exact if_pos (c := (decide (0 < n + 1 ∧ n + 1 ≤ Nat.pow 2 63)) = true)
      (decide_eq_true ⟨n.succ_pos, hn⟩)

mutual

/-- The reader takes the value as it stands: no more levels of it are open at once than `depth`,
its integers are in range, and the names of an object differ. -/
def Value.Fits (depth : Nat) : Value → Prop
  | .number (.integer i) => -(Nat.pow 2 63 : Int) ≤ i ∧ i < (Nat.pow 2 64 : Int)
  | .array items =>
    match depth with
    | 0 => False
    | depth + 1 => ItemsFit depth items
  | .object fields =>
    match depth with
    | 0 => False
    | depth + 1 => FieldsFit depth fields ∧ (Fields.names fields).Nodup
  | _ => True

def ItemsFit (depth : Nat) : List Value → Prop
  | [] => True
  | v :: rest => v.Fits depth ∧ ItemsFit depth rest

def FieldsFit (depth : Nat) : List (String × Value) → Prop
  | [] => True
  | (_, v) :: rest => v.Fits depth ∧ FieldsFit depth rest

end

theorem insert_of_not_mem {α : Type} {name : String} {value : α} {fields : List (String × α)}
    (h : name ∉ Fields.names fields) :
    Fields.insert name value fields = fields ++ [(name, value)] := by
  induction fields with
  | nil => rfl
  | cons f fields ih =>
    obtain ⟨n, v⟩ := f
    simp only [Fields.names, List.map_cons, List.mem_cons, not_or] at h ih
    rw [Fields.insert, if_neg (Ne.symm h.1), ih h.2, List.cons_append]

/-- Names that differ are put in order. -/
theorem ofPairs_of_nodup {α : Type} {fields : List (String × α)}
    (h : (Fields.names fields).Nodup) : Fields.ofPairs fields = fields := by
  suffices hinsert : ∀ done : List (String × α), (Fields.names (done ++ fields)).Nodup →
      fields.foldl (fun fields f => Fields.insert f.1 f.2 fields) done = done ++ fields from
    hinsert [] h
  clear h
  induction fields with
  | nil => exact fun done _ => (List.append_nil done).symm
  | cons f fields ih =>
    intro done hdone
    obtain ⟨name, v⟩ := f
    have hnew : name ∉ Fields.names done := by
      rw [Fields.names, List.map_append, List.nodup_append] at hdone
      exact fun hf => hdone.2.2 _ hf _ List.mem_cons_self rfl
    have hinsert : Fields.insert name v done = done ++ [(name, v)] := insert_of_not_mem hnew
    rw [List.foldl_cons]
    simp only [hinsert]
    rw [ih]
    · rw [List.append_assoc]
      rfl
    · rw [List.append_assoc]
      exact hdone

mutual

theorem Value.valueWithin?_toSyntax : ∀ (v : Value) (depth : Nat), v.Whole → v.Fits depth →
    v.toSyntax.valueWithin? depth = some v
  | .null, _, _, _ | .bool _, _, _, _ => by rw [Value.toSyntax, Syntax.valueWithin?]
  | .number (.integer i), _, _, h => by
    rw [Value.toSyntax, Syntax.valueWithin?, number?_integerText h, Option.map_some]
  | .text s, _, _, _ => by
    rw [Value.toSyntax, Syntax.valueWithin?, stringOf?_partsOf, Option.map_some]
  | .array items, depth + 1, hv, h => by
    rw [Value.toSyntax, Syntax.valueWithin?, itemsWithin?_itemsSyntax items depth hv h,
      Option.map_some]
  | .object fields, depth + 1, hv, h => by
    rw [Value.toSyntax, Syntax.valueWithin?, fieldsWithin?_fieldsSyntax fields depth hv h.1,
      Option.map_some, ofPairs_of_nodup h.2]

theorem itemsWithin?_itemsSyntax : ∀ (items : List Value) (depth : Nat), ItemsWhole items →
    ItemsFit depth items → itemsWithin? depth (itemsSyntax items) = some items
  | [], _, _, _ => rfl
  | v :: rest, depth, hv, h => by
    simp only [itemsSyntax, itemsWithin?, v.valueWithin?_toSyntax depth hv.1 h.1,
      itemsWithin?_itemsSyntax rest depth hv.2 h.2, Option.bind_eq_bind, Option.bind_some]

theorem fieldsWithin?_fieldsSyntax : ∀ (fields : List (String × Value)) (depth : Nat),
    FieldsWhole fields → FieldsFit depth fields →
      fieldsWithin? depth (fieldsSyntax fields) = some fields
  | [], _, _, _ => rfl
  | (name, v) :: rest, depth, hv, h => by
    simp only [fieldsSyntax, fieldsWithin?, stringOf?_partsOf,
      v.valueWithin?_toSyntax depth hv.1 h.1,
      fieldsWithin?_fieldsSyntax rest depth hv.2 h.2, Option.bind_eq_bind, Option.bind_some]

end

/-- A value that the reader takes as it stands is read back from what is written of it. -/
theorem Value.parse?_compact {layout : List Char} (hlayout : ∀ c ∈ layout, isLayout c = true)
    {v : Value} (hv : v.Whole) (h : v.Fits maxDepth) :
    Value.parse? (v.compact ++ String.ofList layout) = some v := by
  rw [Value.parse?, String.toList_append, String.toList_ofList, Syntax.parse?_compact hlayout hv]
  exact v.valueWithin?_toSyntax maxDepth hv h

end FormLetter.Json
