import FormLetter.Proofs.Engine.Document
import FormLetter.Proofs.Tag.Marker

/-!
# Finished documents

No tag survives a run (`occursIn_expand`): each text of a document is one that was rendered, and
rendering leaves no tag in a text if it puts no opening brace there.
-/

namespace FormLetter

open FormLetter.Json FormLetter.Loop FormLetter.Tag

/-- A tag that is evaluated when a tree is expanded has this value. -/
inductive Engine.Produces (engine : Engine) : Node → Context → String → Prop where
  | tag {root : Node} {ctx : Context} {s value : String} {raw : List Char} :
    Site.find? engine.layout root = .ok none → s ∈ root.strings engine.layout.textContainer →
    raw ∈ tagPattern.all s.toList → evalTag engine.filters ctx (String.ofList raw) = .ok value →
    Produces engine root ctx value
  /-- A tag of a loop body. -/
  | copy {root : Node} {ctx : Context} {site : Site} {item : Value × Value} {value : String} :
    Site.find? engine.layout root = .ok (some site) → item ∈ Engine.items ctx site.header →
    Produces engine (.fragment site.body) (Engine.itemContext site.header ctx item) value →
    Produces engine root ctx value
  /-- A tag of what is left when a loop is unrolled. -/
  | rest {root : Node} {ctx : Context} {site : Site} {nodes : List Node} {value : String} :
    Site.find? engine.layout root = .ok (some site) →
    engine.output site.header site.body ctx = .ok nodes →
    Produces engine (site.replace nodes root) ctx value → Produces engine root ctx value

namespace Engine

variable {engine : Engine} {ctx : Context}

theorem Renders.occursIn_eq_false {root : Node} {out : String} (h : engine.Renders root ctx out)
    (hvalue : ∀ v, engine.Produces root ctx v → '\x7b' ∉ v.toList) :
    tagPattern.occursIn out.toList = false := by
  induction h with
  | text hd hs hr => exact occursIn_render hr fun _ hraw v hv => hvalue v (.tag hd hs hraw hv)
  | copy hsite hitem _ ih => exact ih fun v hv => hvalue v (.copy hsite hitem hv)
  | rest hsite ho _ ih => exact ih fun v hv => hvalue v (.rest hsite ho hv)

/-- No tag survives: if no tag of a run has a value with an opening brace, the texts of the
document have no tags, and so no loop starts. Where only texts in a container count, it has to hold
texts only. -/
theorem occursIn_expand {template t : Node} (hf : template.hasFragment = false)
    (hc : ∀ c, engine.layout.textContainer = some c →
      c ≠ Node.fragmentName ∧ template.holdsOnlyTexts c = true)
    (hvalue : ∀ v, engine.Produces template ctx v → '\x7b' ∉ v.toList)
    (h : engine.expand template ctx = .ok t) {s : String}
    (hs : s ∈ t.strings engine.layout.textContainer) :
    tagPattern.occursIn s.toList = false ∧ hasStart s = false := by
  have ht := (renders_of_mem_strings_expand hf hc h hs).occursIn_eq_false hvalue
  exact ⟨ht, hasStart_of_occursIn_eq_false ht⟩

theorem greeting_occursIn :
    let greeting : Node := .element "w:p" [] [.element "w:t" [] [.text "Dear {name}, {/x} {} \x7b"]]
    let ctx := Context.ofFields [("name", .text "Ann")]
    ∃ t, (Engine.mk .builtin {}).expand greeting ctx = .ok t ∧
      ∀ s ∈ t.strings (some "w:t"), tagPattern.occursIn s.toList = false ∧ hasStart s = false := by
  intro greeting ctx
  have hd : Site.find? {} greeting = .ok none := rfl
  have hvalue : ∀ v, (Engine.mk .builtin {}).Produces greeting ctx v → '\x7b' ∉ v.toList := by
    intro v hv
    cases hv with
    | tag _ hs hraw he =>
      have hs : _ = "Dear {name}, {/x} {} \x7b" := List.mem_singleton.1 hs
      have hall : tagPattern.all "Dear {name}, {/x} {} \x7b".toList = ["name".toList] := by
        decide +kernel
      rw [hs, hall, List.mem_singleton] at hraw
      have hv : (evalTag .builtin ctx (String.ofList "name".toList)).toOption = some "Ann" := by
        decide +kernel
      rw [← hraw, he] at hv
      cases hv
      decide
    | copy hs => rw [hd] at hs; cases hs
    | rest hs => rw [hd] at hs; cases hs
  have hok : ((Engine.mk .builtin {}).expand greeting ctx).toOption.isSome = true := by
    decide +kernel
  cases h : (Engine.mk .builtin {}).expand greeting ctx with
  | error e => rw [h] at hok; cases hok
  | ok t =>
    refine ⟨t, rfl, fun s hs => occursIn_expand rfl (fun c hc => ?_) hvalue h hs⟩
    cases hc
    decide

end Engine

end FormLetter
