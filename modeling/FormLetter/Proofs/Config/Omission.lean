import FormLetter.Config.Reader
import FormLetter.Proofs.Json.Written

/-!
# Fields that are left out

A configuration is read back from what is written of it. Fields may be taken out of what is written,
at any level (`Json.Value.prune`): then just these have their defaults (`Config.parse?_prune`).
-/

namespace FormLetter

open FormLetter.Json

namespace Json

mutual

/-- The value without some fields, each named by the way to it. -/
def Value.prune (gone : List String → Bool) : Value → Value
  | .object fields => .object (pruneFields gone fields)
  | v => v

def pruneFields (gone : List String → Bool) : List (String × Value) → List (String × Value)
  | [] => []
  | (name, v) :: fields =>
    if gone [name] then pruneFields gone fields
    else (name, v.prune fun path => gone (name :: path)) :: pruneFields gone fields

end

theorem names_pruneFields_sublist (gone : List String → Bool) (fields : List (String × Value)) :
    (Fields.names (pruneFields gone fields)).Sublist (Fields.names fields) := by
  induction fields with
  | nil => exact .slnil
  | cons field fields ih =>
    rw [pruneFields]
    split
    · exact ih.cons _
    · exact ih.cons_cons _

theorem get?_pruneFields (gone : List String → Bool) (name : String)
    (fields : List (String × Value)) : Fields.get? name (pruneFields gone fields) =
      if gone [name] then none
      else (Fields.get? name fields).map (Value.prune fun path => gone (name :: path)) := by
  induction fields with
  | nil => simp [pruneFields, Fields.get?]
  | cons field fields ih =>
    obtain ⟨first, v⟩ := field
    rw [pruneFields, Fields.get?]
    by_cases hname : first = name
    · subst hname
      by_cases hgone : gone [first] = true
      · rw [if_pos hgone, ih, if_pos hgone, if_pos hgone]
      · rw [if_neg hgone, if_neg hgone, Fields.get?, if_pos rfl, if_pos rfl, Option.map_some]
    · rw [if_neg hname, ← ih]
      split
      · rfl
      · rw [Fields.get?, if_neg hname]

mutual

theorem Value.whole_prune : ∀ (gone : List String → Bool) (v : Value), v.Whole →
    (v.prune gone).Whole
  | gone, .object fields, h => fieldsWhole_pruneFields gone fields h
  | _, .null, h | _, .bool _, h | _, .number _, h | _, .text _, h | _, .array _, h => h

theorem fieldsWhole_pruneFields : ∀ (gone : List String → Bool) (fields : List (String × Value)),
    FieldsWhole fields → FieldsWhole (pruneFields gone fields)
  | _, [], _ => trivial
  | gone, (name, v) :: fields, h => by
    have hfields := fieldsWhole_pruneFields gone fields h.2
    rw [pruneFields]
    split
    · exact hfields
    · exact ⟨v.whole_prune _ h.1, hfields⟩

end

end Json

namespace Record

theorem mapM_fieldsSyntax (fields : List (String × Value)) :
    ((fieldsSyntax fields).mapM fun (name, s) => (stringOf? name).map (·, s)) =
      some (fields.map fun field => (field.1, field.2.toSyntax)) := by
  induction fields with
  | nil => rfl
  | cons field fields ih =>
    obtain ⟨name, v⟩ := field
    rw [fieldsSyntax, List.mapM_cons, ih]
    simp only [stringOf?_partsOf, Option.map_some, Option.bind_eq_bind, Option.bind_some]
    rfl

theorem given?_object {names : List String} {fields : List (String × Value)}
    (hnames : ∀ name ∈ Fields.names fields, name ∈ names)
    (hnodup : (Fields.names fields).Nodup) :
    given? names (Value.object fields).toSyntax =
      some (fields.map fun field => (field.1, field.2.toSyntax)) := by
  have hsame : Fields.names (fields.map fun field => (field.1, field.2.toSyntax)) =
      Fields.names fields := by
    simp [Fields.names]
  have hknown : (fields.map fun field => (field.1, field.2.toSyntax)).filter
      (names.contains ·.1) = fields.map fun field => (field.1, field.2.toSyntax) := by
    refine List.filter_eq_self.2 fun field hfield => ?_
    rw [List.contains_iff_mem]
    exact hnames _ (hsame ▸ List.mem_map_of_mem hfield)
  simp only [Value.toSyntax, given?, mapM_fieldsSyntax, Option.bind_eq_bind, Option.bind_some,
    hknown, hsame, if_pos hnodup]

theorem get?_map_toSyntax (name : String) (fields : List (String × Value)) :
    Fields.get? name (fields.map fun field => (field.1, field.2.toSyntax)) =
      (Fields.get? name fields).map Value.toSyntax := by
  induction fields with
  | nil => rfl
  | cons field fields ih =>
    rw [List.map_cons, Fields.get?, Fields.get?, ih]
    split <;> rfl

section Pruned

variable {gone : List String → Bool} {names : List String} {fields : List (String × Value)}

theorem given?_prune (hnames : Fields.names fields = names) (hnodup : names.Nodup) :
    given? names ((Value.object fields).prune gone).toSyntax =
      some ((pruneFields gone fields).map fun field => (field.1, field.2.toSyntax)) := by
  have hsublist := names_pruneFields_sublist gone fields
  rw [hnames] at hsublist
  exact given?_object (fun name hname => hsublist.subset hname) (hsublist.nodup hnodup)

/-- A field that was taken out has its default, and any other is read as it was written. -/
theorem field?_pruneFields {α : Type} {name : String} {v : Value} {value default : α}
    {read? : Syntax → Option α} (hget : Fields.get? name fields = some v)
    (hread : read? (v.prune fun path => gone (name :: path)).toSyntax = some value) :
    field? ((pruneFields gone fields).map fun field => (field.1, field.2.toSyntax)) name default
      read? = some (if gone [name] then default else value) := by
  rw [field?, get?_map_toSyntax, get?_pruneFields, hget]
  split
  · rename_i h
    split at h
    · rename_i hgone
      rw [if_pos hgone]
    · cases h
  · rename_i h
    split at h
    · cases h
    · rename_i hgone
      cases h
      rw [if_neg hgone, hread]

end Pruned

end Record

open Record

/-! ## Reading what is written -/

theorem readText?_toSyntax (s : String) : readText? (Value.text s).toSyntax = some s :=
  stringOf?_partsOf s

theorem readOptionalText?_toSyntax (s : Option String) :
    readOptionalText? ((s.map Value.text).getD .null).toSyntax = some s := by
  cases s with
  | none => rfl
  | some s => exact congrArg (Option.map some) (readText?_toSyntax s)

theorem FailurePolicy.read?_toSyntax (policy : FailurePolicy) :
    FailurePolicy.read? (Value.text policy.name).toSyntax = some policy := by
  rw [Value.toSyntax, FailurePolicy.read?, stringOf?_partsOf, Option.bind_some]
  cases policy <;> decide

/-- The layout with some fields at their defaults. -/
def Layout.reset (gone : List String → Bool) (layout : Layout) : Layout :=
  let d : Layout := {}
  { block := if gone ["block"] then d.block else layout.block
    cell := if gone ["cell"] then d.cell else layout.cell
    row := if gone ["row"] then d.row else layout.row
    textContainer := if gone ["textContainer"] then d.textContainer else layout.textContainer }

def BatchConfig.reset (gone : List String → Bool) (batch : BatchConfig) : BatchConfig :=
  let d : BatchConfig := {}
  { failurePolicy := if gone ["failurePolicy"] then d.failurePolicy else batch.failurePolicy }

def ConverterConfig.reset (gone : List String → Bool) (converter : ConverterConfig) :
    ConverterConfig :=
  let d : ConverterConfig := {}
  { enabled := if gone ["enabled"] then d.enabled else converter.enabled
    binary := if gone ["binary"] then d.binary else converter.binary
    format := if gone ["format"] then d.format else converter.format }

/-- The configuration with some fields at their defaults, each named by the way to it. -/
def Config.reset (gone : List String → Bool) (config : Config) : Config :=
  { layout := if gone ["structure"] then {}
      else config.layout.reset fun path => gone ("structure" :: path)
    batch := if gone ["batch"] then {} else config.batch.reset fun path => gone ("batch" :: path)
    converter := if gone ["converter"] then {}
      else config.converter.reset fun path => gone ("converter" :: path) }

theorem Layout.read?_prune (gone : List String → Bool) (layout : Layout) :
    Layout.read? (layout.toValue.prune gone).toSyntax = some (layout.reset gone) := by
  have hcontainer : (((layout.textContainer.map Value.text).getD .null).prune fun path =>
      gone ("textContainer" :: path)) = (layout.textContainer.map Value.text).getD .null := by
    cases layout.textContainer <;> rfl
  rw [Layout.read?, Layout.toValue, given?_prune (by rfl) (by decide)]
  simp only [Option.bind_eq_bind, Option.bind_some]
  rw [field?_pruneFields rfl (readText?_toSyntax layout.block),
    field?_pruneFields rfl (readText?_toSyntax layout.cell),
    field?_pruneFields rfl (readText?_toSyntax layout.row),
    field?_pruneFields rfl (hcontainer ▸ readOptionalText?_toSyntax layout.textContainer)]
  rfl

theorem BatchConfig.read?_prune (gone : List String → Bool) (batch : BatchConfig) :
    BatchConfig.read? (batch.toValue.prune gone).toSyntax = some (batch.reset gone) := by
  rw [BatchConfig.read?, BatchConfig.toValue, given?_prune (by rfl) (by decide)]
  simp only [Option.bind_eq_bind, Option.bind_some]
  rw [field?_pruneFields rfl (FailurePolicy.read?_toSyntax batch.failurePolicy)]
  rfl

theorem ConverterConfig.read?_prune (gone : List String → Bool) (converter : ConverterConfig) :
    ConverterConfig.read? (converter.toValue.prune gone).toSyntax =
      some (converter.reset gone) := by
  have henabled : readBool? (Value.bool converter.enabled).toSyntax = some converter.enabled := rfl
  rw [ConverterConfig.read?, ConverterConfig.toValue, given?_prune (by rfl) (by decide)]
  simp only [Option.bind_eq_bind, Option.bind_some]
  rw [field?_pruneFields rfl henabled,
    field?_pruneFields rfl (readText?_toSyntax converter.binary),
    field?_pruneFields rfl (readText?_toSyntax converter.format)]
  rfl

theorem Config.read?_prune (gone : List String → Bool) (config : Config) :
    Config.read? (config.toValue.prune gone).toSyntax = some (config.reset gone) := by
  rw [Config.read?, Config.toValue, given?_prune (by rfl) (by decide)]
  simp only [Option.bind_eq_bind, Option.bind_some]
  rw [field?_pruneFields rfl (Layout.read?_prune _ config.layout),
    field?_pruneFields rfl (BatchConfig.read?_prune _ config.batch),
    field?_pruneFields rfl (ConverterConfig.read?_prune _ config.converter)]
  rfl

theorem Config.reset_none (config : Config) : config.reset (fun _ => false) = config := rfl

mutual

theorem Json.Value.prune_none : (v : Value) → v.prune (fun _ => false) = v
  | .object fields => congrArg Value.object (Json.pruneFields_none fields)
  | .null | .bool _ | .number _ | .text _ | .array _ => rfl

theorem Json.pruneFields_none : (fields : List (String × Value)) →
    pruneFields (fun _ => false) fields = fields
  | [] => rfl
  | (name, v) :: fields => by
    rw [pruneFields, Json.Value.prune_none v, Json.pruneFields_none fields]
    rfl

end

theorem Config.whole_toValue (config : Config) : config.toValue.Whole := by
  have hcontainer : ((config.layout.textContainer.map Value.text).getD .null).Whole := by
    cases config.layout.textContainer <;> trivial
  exact ⟨⟨trivial, trivial, trivial, hcontainer, trivial⟩, ⟨trivial, trivial⟩,
    ⟨trivial, trivial, trivial, trivial⟩, trivial⟩

/-- A configuration is read back from what is written of it, in either layout. Where fields are
taken out of that, at the top or further down, just these have their defaults. -/
theorem Config.parse?_prune (config : Config) :
    (Config.parse? config.toValue.compact = some config ∧
      Config.parse? config.toValue.pretty = some config) ∧
    ∀ gone : List String → Bool,
      Config.parse? (config.toValue.prune gone).compact = some (config.reset gone) ∧
        Config.parse? (config.toValue.prune gone).pretty = some (config.reset gone) := by
  have hread : ∀ gone : List String → Bool,
      Config.parse? (config.toValue.prune gone).compact = some (config.reset gone) ∧
        Config.parse? (config.toValue.prune gone).pretty = some (config.reset gone) := by
    intro gone
    have hwhole := config.toValue.whole_prune gone config.whole_toValue
    have hcompact := Syntax.parse?_compact (List.forall_mem_nil _) hwhole
    have hpretty := Syntax.parse?_pretty (List.forall_mem_nil _) hwhole
    rw [List.append_nil] at hcompact hpretty
    rw [Config.parse?, hcompact, Config.parse?, hpretty]
    exact ⟨config.read?_prune gone, config.read?_prune gone⟩
  have hall := hread fun _ => false
  rw [config.toValue.prune_none, config.reset_none] at hall
  exact ⟨hall, hread⟩

end FormLetter
