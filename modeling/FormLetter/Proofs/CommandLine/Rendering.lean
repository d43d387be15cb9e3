import FormLetter.CommandLine.Run
import FormLetter.Proofs.Batch.Rendering

/-!
# Rendering on the command line

What the command line shows of data is the outcome of the data alone (`exists_shows_render`), so it
agrees with whatever else has this outcome (`agrees_of_renders`).
-/

namespace FormLetter.CommandLine

open FormLetter.Disk FormLetter.Json

variable {batch : Batch} {conversion : Content → Except ConvertError Content → Prop} {d : Disk}
  {t : Location} {ctx : Context} {template data output : String}

/-- A run shows an outcome: the document is at the output, or the error is reported. -/
def Shows {α : Type} (a : α) (output : String) (r : Except ItemError Content)
    (result : Except Failure α × Disk) : Prop :=
  match r with
  | .ok content => result.1 = .ok a ∧ result.2.fileAt? output = some content
  | .error cause => ∃ f : Failure, result.1 = .error f ∧ f.message = cause.message

theorem Shows.bind {α β : Type} {a : α} {f : α → Task Failure β} {b : β}
    {r : Except ItemError Content} {t : Task Failure α} (h : Shows a output r (t.runOn d))
    (hf : f a = pure b) : Shows b output r ((t >>= f).runOn d) := by
  cases r with
  | ok content =>
    have hrun : t.runOn d = (.ok a, (t.runOn d).2) := Prod.ext h.1 rfl
    rw [Task.runOn_bind_of_ok hrun, hf]
    exact ⟨rfl, h.2⟩
  | error cause =>
    obtain ⟨e, he, hmessage⟩ := h
    have hrun : t.runOn d = (.error e, (t.runOn d).2) := Prod.ext he rfl
    rw [Task.runOn_bind_of_error hrun]
    exact ⟨e, rfl, hmessage⟩

/-- Makes the document, converted or not, at the output. -/
def produce (converter : Option Converter) (document : Package) (output : String) :
    Task Failure Unit :=
  match converter with
  | none => (document.save output).orError fun e => .usage e.message
  | some converter =>
    withTemporaryDirectory (fun e => .usage e.message) fun directory => do
      let saved := join directory "document.docx"
      (document.save saved).orError fun e => .usage e.message
      (converter.convert saved output).orError fun e => .generation e.message

theorem render_eq (engine : Engine) (converter : Option Converter)
    (template data output : String) :
    render engine converter template data output = (do
      let template ← loadTemplate template
      let ctx ← loadData data Context.ofValue?
      match engine.expand template.tree ctx with
      | .error e => throw (.generation e.message)
      | .ok tree =>
        produce converter (template.withTree tree) output
        return .object (successAt output)) := by
  cases converter <;> rfl

theorem exists_shows_produce (hconverter : ∀ c ∈ batch.converter, c.Computes conversion)
    (hd : d.Sound) (ht : d.Accepts output t) (hname : ¬IsMadeUp (lastPart output)) {tree : Node}
    (htree : batch.engine.expand batch.template.tree ctx = .ok tree) :
    ∃ r, batch.Renders conversion ctx r ∧ Shows () output r
      ((produce batch.converter (batch.template.withTree tree) output).runOn d) := by
  have hdocument : batch.document ctx =
      (batch.template.withTree tree).toContent.mapError .document := by rw [Batch.document, htree]
  cases hc : batch.converter with
  | none =>
    obtain ⟨d', hsave, honly, hcontent⟩ :=
      (batch.template.withTree tree).exists_runOn_save hd.faults ht
    rw [produce, Task.runOn_orError _ hsave]
    cases hdone : (batch.template.withTree tree).toContent with
    | error e =>
      rw [hdone] at hdocument
      exact ⟨_, .failed hdocument, _, rfl, rfl⟩
    | ok content =>
      rw [hdone] at hdocument
      refine ⟨_, .saved hdocument hc, rfl, ?_⟩
      rw [(honly.accepts ht).fileAt?_eq]
      exact hcontent content hdone
  | some c =>
    have hnew := ht.not_under_new (ht.ne_new hname)
    have hpart : IsPart "document.docx" := by decide
    have hsaved := hd.accepts_new hpart
    obtain ⟨d₁, hsave, honly₁, hcontent⟩ :=
      (batch.template.withTree tree).exists_runOn_save hd.withNewDirectory.faults hsaved
    cases hdone : (batch.template.withTree tree).toContent with
    | error e =>
      rw [hdone] at hdocument hsave
      refine ⟨_, .failed hdocument, ?_⟩
      rw [produce, runOn_withTemporaryDirectory hd.faults
        (Task.runOn_bind_of_error (Task.runOn_orError_of_error _ hsave))]
      exact ⟨_, rfl, rfl⟩
    | ok content =>
      rw [hdone] at hdocument hsave
      have hne : d.newIn d.temporary ++ ["document.docx"] ≠ t := by
        intro heq
        exact hnew (heq ▸ List.prefix_append ..)
      obtain ⟨r, d₂, hconvert, hr, honly₂, hout⟩ := (hconverter c hc).converts
        (honly₁.sound hd.withNewDirectory) (honly₁.accepts hsaved) (hcontent content hdone)
        (honly₁.accepts (ht.withNewDirectory hnew)) hname hne
      refine ⟨_, .converted hdocument hc hr, ?_⟩
      rw [produce, runOn_withTemporaryDirectory hd.faults
        ((Task.runOn_bind_of_ok (Task.runOn_orError_of_ok _ hsave)).trans
          (Task.runOn_orError _ hconvert))]
      cases r with
      | error e => exact ⟨_, rfl, rfl⟩
      | ok out =>
        have hsame : d.withNewDirectory.FilesOnly
            (fun m => m = t ∨ d.newIn d.temporary <+: m) d₂ :=
          (honly₁.below.mono fun _ h => .inr h.1).trans (honly₂.mono fun _ => .inl)
        have hfinal := filesOnly_remove_new hsame.toSameOutside hsame.faults fun m _ =>
          hsame.isDirectory m
        refine ⟨rfl, ?_⟩
        rw [(hfinal.accepts ht).fileAt?_eq, content?_congr (d := d₂)]
        · exact hout out rfl
        · rw [find?_remove (d.newIn_ne_nil _), if_neg hnew]

/-- What the command line shows of data is the outcome of the data alone. -/
theorem exists_shows_render (hconverter : ∀ c ∈ batch.converter, c.Computes conversion)
    (hd : d.Sound) (ht : d.Accepts output t) (hname : ¬IsMadeUp (lastPart output))
    (htemplate : (loadTemplate template).runOn d = (.ok batch.template, d))
    (hdata : (loadData data Context.ofValue?).runOn d = (.ok ctx, d)) :
    ∃ r, batch.Renders conversion ctx r ∧ Shows (.object (successAt output)) output r
      ((render batch.engine batch.converter template data output).runOn d) := by
  rw [render_eq, Task.runOn_bind_of_ok htemplate, Task.runOn_bind_of_ok hdata]
  cases htree : batch.engine.expand batch.template.tree ctx with
  | error e =>
    have hdocument : batch.document ctx = .error (.template e) := by rw [Batch.document, htree]
    exact ⟨_, .failed hdocument, _, rfl, rfl⟩
  | ok tree =>
    obtain ⟨r, hr, hshows⟩ := exists_shows_produce hconverter hd ht hname htree
    exact ⟨r, hr, hshows.bind rfl⟩

/-- For data with this outcome the command line shows an outcome of the same data, and so the same
outcome if a conversion has one result only. -/
def Agrees (batch : Batch) (conversion : Content → Except ConvertError Content → Prop)
    (ctx : Context) (r : Except ItemError Content) : Prop :=
  ∀ {d : Disk} {template data output : String} {t : Location}, d.Sound → d.Accepts output t →
    ¬IsMadeUp (lastPart output) → (loadTemplate template).runOn d = (.ok batch.template, d) →
    (loadData data Context.ofValue?).runOn d = (.ok ctx, d) →
    ∃ r', batch.Renders conversion ctx r' ∧
      ((∀ content x y, conversion content x → conversion content y → x = y) → r' = r) ∧
      Shows (.object (successAt output)) output r'
        ((render batch.engine batch.converter template data output).runOn d)

theorem agrees_of_renders (hconverter : ∀ c ∈ batch.converter, c.Computes conversion)
    {r : Except ItemError Content} (hr : batch.Renders conversion ctx r) :
    Agrees batch conversion ctx r := by
  intro d template data output t hd ht hname htemplate hdata
  obtain ⟨r', hr', hshows⟩ := exists_shows_render hconverter hd ht hname htemplate hdata
  exact ⟨r', hr', fun hunique => hr'.unique hunique hr, hshows⟩

end FormLetter.CommandLine
