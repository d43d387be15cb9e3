import Mathlib.Data.List.Forall2
import FormLetter.Proofs.Batch.Assembly
import FormLetter.Proofs.Converter.Computes

/-!
# What the documents of a batch come to

A context alone has an outcome (`Batch.Renders`): its document is saved and, if there is a
converter, converted. On a disk without faults a batch goes on as the outcomes of its contexts tell
it to, each on its own: it adds what was made, reports what was not, or stops there
(`exists_runOn_addItems`).
-/

namespace FormLetter

open FormLetter.Disk

variable {d d' : Disk} {directory archive t : Location} {path : String}

/-- On a disk without faults, a package is saved unless it has no content. -/
theorem Package.exists_runOn_save (p : Package) (hd : d.faults = []) (h : d.Accepts path t) :
    ∃ d', (p.save path).runOn d = (p.toContent.map fun _ => (), d') ∧ d.FilesOnly (· = t) d' ∧
      ∀ content, p.toContent = .ok content → d'.content? t = some content := by
  have hcreate : ∀ parts, ∃ d', ((Disk.write path (.archive parts)).orError
      (DocumentError.io ("create " ++ path))).runOn d = (.ok (), d') ∧ d.FilesOnly (· = t) d' ∧
        d'.content? t = some (.archive parts) := by
    intro parts
    obtain ⟨d', hwrite, h⟩ := runOn_write hd h (.archive parts)
    exact ⟨d', Task.runOn_orError_of_ok _ hwrite, h⟩
  rw [save, toContent]
  cases p.savedParts with
  | ok parts =>
    obtain ⟨d', hrun, honly, hcontent⟩ := hcreate parts
    refine ⟨d', hrun, honly, fun content h => ?_⟩
    cases h
    exact hcontent
  | error cause =>
    obtain ⟨d', hrun, honly, -⟩ := hcreate p.passedParts.1
    exact ⟨d', Task.runOn_bind_of_ok hrun, honly, fun content h => by cases h⟩

namespace Batch

variable {batch : Batch} {conversion : Content → Except ConvertError Content → Prop}

/-- The document of a context, as it is saved. -/
def document (batch : Batch) (ctx : Context) : Except ItemError Content :=
  match batch.engine.expand batch.template.tree ctx with
  | .error e => .error (.template e)
  | .ok tree => (batch.template.withTree tree).toContent.mapError .document

/-- The outcome of a context: its document, or what that is converted to, or why it cannot be
made. -/
inductive Renders (batch : Batch) (conversion : Content → Except ConvertError Content → Prop)
    (ctx : Context) : Except ItemError Content → Prop where
  | failed {e : ItemError} : batch.document ctx = .error e →
    Renders batch conversion ctx (.error e)
  | saved {content : Content} : batch.document ctx = .ok content → batch.converter = none →
    Renders batch conversion ctx (.ok content)
  | converted {content : Content} {c : Converter} {r : Except ConvertError Content} :
    batch.document ctx = .ok content → batch.converter = some c → conversion content r →
    Renders batch conversion ctx (r.mapError .convert)

/-- There is one outcome, if there is one for each conversion. -/
theorem Renders.unique (hunique : ∀ content r r', conversion content r → conversion content r' →
    r = r') {ctx : Context} {r r' : Except ItemError Content}
    (h : batch.Renders conversion ctx r) (h' : batch.Renders conversion ctx r') : r = r' := by
  cases h with
  | failed hdocument =>
    cases h' with
    | failed hdocument' => exact hdocument.symm.trans hdocument'
    | saved hdocument' => cases hdocument.symm.trans hdocument'
    | converted hdocument' => cases hdocument.symm.trans hdocument'
  | saved hdocument hnone =>
    cases h' with
    | failed hdocument' => cases hdocument.symm.trans hdocument'
    | saved hdocument' => exact hdocument.symm.trans hdocument'
    | converted _ hsome => cases hnone.symm.trans hsome
  | converted hdocument hsome hr =>
    cases h' with
    | failed hdocument' => cases hdocument.symm.trans hdocument'
    | saved _ hnone => cases hnone.symm.trans hsome
    | converted hdocument' _ hr' =>
      cases hdocument.symm.trans hdocument'
      rw [hunique _ _ _ hr hr']

/-- The extension of the entries of a batch. -/
def extension (batch : Batch) : String :=
  match batch.converter with
  | none => documentExtension
  | some converter => converter.extension

def fileName (batch : Batch) (index : Nat) : String :=
  match batch.converter with
  | none => entryName index documentExtension
  | some converter => "converted-" ++ entryName index converter.extension

theorem head?_entryName (index : Nat) (extension : String) :
    (entryName index extension).toList.head? = some 'd' := by
  simp [entryName]

theorem isPart_entryName {extension : String} (h : '/' ∉ extension.toList) (index : Nat) :
    IsPart (entryName index extension) := by
  refine isPart_append (c := 'd') ?_ (by decide) ?_ h
  · simp
  · simp [not_mem_toDigits]

theorem isPart_converted {extension : String} (h : '/' ∉ extension.toList) (index : Nat) :
    IsPart ("converted-" ++ entryName index extension) :=
  isPart_append (c := 'c') (by decide) (by decide) (by decide) (isPart_entryName h index).2.2.2

theorem isPart_fileName (h : ∀ c ∈ batch.converter, c.Computes conversion) (index : Nat) :
    IsPart (batch.fileName index) := by
  rw [fileName]
  split
  · exact isPart_entryName (by decide) index
  · rename_i c hc
    exact isPart_converted (h c hc).extension index

theorem head?_of_isMadeUp {name : String} (h : IsMadeUp name) : name.toList.head? = some '.' := by
  obtain ⟨n, rfl⟩ := h
  simp

theorem not_isMadeUp_converted (name : String) : ¬IsMadeUp ("converted-" ++ name) := by
  intro h
  have hhead := head?_of_isMadeUp h
  simp at hhead

theorem entryName_ne_converted (index : Nat) (extension name : String) :
    entryName index extension ≠ "converted-" ++ name := by
  intro h
  have hhead := head?_entryName index extension
  rw [h] at hhead
  simp at hhead

/-! ## Making a document -/

/-- A disk with a working directory for the documents, which holds no directories, and a file for
the archive that is elsewhere. -/
structure Workplace (d : Disk) (directory archive : Location) : Prop where
  sound : d.Sound
  isProper : IsProper directory
  reaches : d.Reaches directory
  flat : ∀ name, d.isDirectory (directory ++ [name]) = false
  accepts_archive : d.Accepts (pathOf archive) archive
  apart : ¬directory <+: archive

theorem Workplace.of_filesOnly {S : Location → Prop} (h : Workplace d directory archive)
    (honly : d.FilesOnly S d') : Workplace d' directory archive where
  sound := honly.sound h.sound
  isProper := h.isProper
  reaches := honly.reaches h.reaches
  flat name := (honly.isDirectory _).trans (h.flat name)
  accepts_archive := honly.accepts h.accepts_archive
  apart := h.apart

theorem Workplace.accepts_join (h : Workplace d directory archive) {part : String}
    (hpart : IsPart part) : d.Accepts (join (pathOf directory) part) (directory ++ [part]) :=
  h.reaches.accepts_join h.isProper hpart (h.flat part)

theorem exists_runOn_convert {c : Converter} (hc : c.Computes conversion)
    (h : Workplace d directory archive) (index : Nat) {content : Content}
    (hcontent :
      d.content? (directory ++ [entryName index documentExtension]) = some content) :
    ∃ r d', (c.convert (join (pathOf directory) (entryName index documentExtension))
        (join (pathOf directory) ("converted-" ++ entryName index c.extension))).runOn d =
          (r.map fun _ => (), d') ∧
      conversion content r ∧ d.FilesOnly (Below directory) d' ∧ ∀ out, r = .ok out →
        d'.content? (directory ++ ["converted-" ++ entryName index c.extension]) = some out := by
  have hextension : '/' ∉ documentExtension.toList := by decide
  have hpart := isPart_converted hc.extension index
  have hname : ¬IsMadeUp (lastPart
      (join (pathOf directory) ("converted-" ++ entryName index c.extension))) := by
    rw [lastPart_join hpart]
    exact not_isMadeUp_converted _
  obtain ⟨r, d', hconvert, hr, honly, hout⟩ := hc.converts h.sound
    (h.accepts_join (isPart_entryName hextension index)) hcontent (h.accepts_join hpart) hname
    (by simp [entryName_ne_converted])
  exact ⟨r, d', hconvert, hr, honly.below, hout⟩

/-- What comes of making the document of a context is the outcome of the context. -/
theorem exists_runOn_makeItem (hconverter : ∀ c ∈ batch.converter, c.Computes conversion)
    (h : Workplace d directory archive) (index : Nat) (ctx : Context) :
    ∃ r d', (batch.makeItem (pathOf directory) index ctx).runOn d =
        (r.map fun _ => (join (pathOf directory) (batch.fileName index),
          entryName index batch.extension), d') ∧
      batch.Renders conversion ctx r ∧ d.FilesOnly (Below directory) d' ∧
        ∀ content, r = .ok content →
          d'.content? (directory ++ [batch.fileName index]) = some content := by
  rw [makeItem, fileName, extension]
  cases htree : batch.engine.expand batch.template.tree ctx with
  | error e =>
    have hdocument : batch.document ctx = .error (.template e) := by rw [document, htree]
    exact ⟨_, d, rfl, .failed hdocument, .refl d, fun _ h => by cases h⟩
  | ok tree =>
    have hdocument : batch.document ctx =
        (batch.template.withTree tree).toContent.mapError .document := by rw [document, htree]
    have hextension : '/' ∉ documentExtension.toList := by decide
    have hsaved := h.accepts_join (isPart_entryName hextension index)
    obtain ⟨d₁, hsave, honly, hcontent⟩ :=
      (batch.template.withTree tree).exists_runOn_save h.sound.faults hsaved
    cases hdone : (batch.template.withTree tree).toContent with
    | error e =>
      rw [hdone] at hdocument hsave
      exact ⟨_, d₁, Task.runOn_bind_of_error (Task.runOn_orError_of_error _ hsave),
        .failed hdocument, honly.below, fun _ h => by cases h⟩
    | ok content =>
      rw [hdone] at hdocument hsave
      simp only
      rw [Task.runOn_bind_of_ok (Task.runOn_orError_of_ok _ hsave)]
      cases hc : batch.converter with
      | none =>
        refine ⟨.ok content, d₁, rfl, .saved hdocument hc, honly.below, fun content' h => ?_⟩
        cases h
        exact hcontent content hdone
      | some c =>
        obtain ⟨r, d₂, hconvert, hr, honly₂, hout⟩ := exists_runOn_convert (hconverter c hc)
          (h.of_filesOnly honly) index (hcontent content hdone)
        refine ⟨r.mapError .convert, d₂, ?_, .converted hdocument hc hr,
          honly.below.trans honly₂, ?_⟩
        · cases r with
          | ok out => exact Task.runOn_bind_of_ok (Task.runOn_orError_of_ok _ hconvert)
          | error e => exact Task.runOn_bind_of_error (Task.runOn_orError_of_error _ hconvert)
        · intro content h
          cases r with
          | ok out =>
            cases h
            exact hout _ rfl
          | error e => cases h

/-! ## Adding it to the archive -/

theorem exists_runOn_writeEntries (h : Workplace d directory archive)
    (entries : List Content.Entry) : ∃ d', (writeEntries archive entries).runOn d = (.ok (), d') ∧
      d.FilesOnly (· = archive) d' ∧ d'.content? archive = some (.archive entries) :=
  runOn_write h.sound.faults h.accepts_archive _

theorem exists_runOn_addItem (h : Workplace d directory archive) (progress : Progress)
    (name : String) {content : Content} (ht : d.Accepts path t)
    (hcontent : d.content? t = some content) (hne : t ≠ archive) :
    ∃ d', (addItem archive progress path name).runOn d =
        (.ok ⟨progress.entries ++ [⟨name, .deflated, content⟩],
          { progress.report with entries := progress.report.entries ++ [name] }⟩, d') ∧
      d.FilesOnly (· = archive) d' := by
  obtain ⟨d₁, hstart, honly₁, -⟩ :=
    exists_runOn_writeEntries h (progress.entries ++ [⟨name, .deflated, .bytes .empty⟩])
  have hread := runOn_read (h.of_filesOnly honly₁).sound.faults (honly₁.accepts ht)
    ((content?_congr (honly₁.find? t hne)).trans hcontent)
  obtain ⟨d₂, hwrite, honly₂, -⟩ := exists_runOn_writeEntries (h.of_filesOnly honly₁)
    (progress.entries ++ [⟨name, .deflated, content⟩])
  refine ⟨d₂, ?_, honly₁.trans honly₂⟩
  calc (addItem archive progress path name).runOn d
      = _ := Task.runOn_bind_of_ok (Task.runOn_orError_of_ok _ hstart)
    _ = _ := Task.runOn_bind_of_ok (Task.runOn_orError_of_ok _ hread)
    _ = _ := Task.runOn_bind_of_ok (Task.runOn_orError_of_ok _ hwrite)

/-- The entries for those outcomes that are documents. -/
def entriesOf (extension : String) (outcomes : List (Except ItemError Content × Nat)) :
    List Content.Entry :=
  outcomes.filterMap fun (r, index) =>
    r.toOption.map fun content => ⟨entryName index extension, .deflated, content⟩

/-- The report on those outcomes that are errors. -/
def skippedOf (outcomes : List (Except ItemError Content × Nat)) : List SkippedItem :=
  outcomes.filterMap fun (r, index) =>
    (Except.error? r).map fun cause => ⟨index, cause.message⟩

/-- The error that a batch stops with, if it does. -/
def stop? (policy : FailurePolicy) (outcomes : List (Except ItemError Content × Nat)) :
    Option BatchError :=
  match policy with
  | .skip => none
  | .abort => outcomes.findSome? fun (r, index) => (Except.error? r).map (.item index)

theorem stop?_eq_none {policy : FailurePolicy} {outcomes : List (Except ItemError Content)}
    (h : policy = .skip ∨ ∀ r ∈ outcomes, r.isOk = true) (index : Nat) :
    stop? policy (outcomes.zipIdx index) = none := by
  cases policy with
  | skip => rfl
  | abort =>
    refine List.findSome?_eq_none_iff.2 fun (r, i) hm => ?_
    obtain ⟨content, rfl⟩ := Except.exists_of_isOk
      ((h.resolve_left fun h => by cases h) r (List.fst_mem_of_mem_zipIdx hm))
    rfl

theorem stop?_eq_some {outcomes : List (Except ItemError Content)} {cause : ItemError} {i : Nat}
    (h : outcomes[i]? = some (.error cause))
    (hbefore : ∀ j < i, ∃ content, outcomes[j]? = some (.ok content)) (index : Nat) :
    stop? .abort (outcomes.zipIdx index) = some (.item (index + i) cause) := by
  induction outcomes generalizing i index with
  | nil => cases h
  | cons r outcomes ih =>
    cases i with
    | zero =>
      cases h
      rfl
    | succ i =>
      obtain ⟨content, hr⟩ := hbefore 0 (Nat.zero_lt_succ i)
      cases hr
      have hrest := ih h (fun j hj => hbefore (j + 1) (Nat.succ_lt_succ hj)) (index + 1)
      rw [Nat.add_right_comm] at hrest
      exact hrest

/-- What comes of adding the documents with these outcomes to an archive. -/
def progressOf (batch : Batch) (progress : Progress)
    (outcomes : List (Except ItemError Content × Nat)) : Except BatchError Progress :=
  match stop? batch.policy outcomes with
  | some e => .error e
  | none => .ok ⟨progress.entries ++ entriesOf batch.extension outcomes,
      ⟨progress.report.entries ++ (entriesOf batch.extension outcomes).map (·.name),
        progress.report.skipped ++ skippedOf outcomes⟩⟩

theorem progressOf_nil (batch : Batch) (progress : Progress) :
    batch.progressOf progress [] = .ok progress := by
  cases hpolicy : batch.policy <;> simp [progressOf, stop?, entriesOf, skippedOf, hpolicy]

theorem progressOf_made (batch : Batch) (progress : Progress) (content : Content) (index : Nat)
    (outcomes : List (Except ItemError Content × Nat)) :
    batch.progressOf progress ((.ok content, index) :: outcomes) =
      batch.progressOf ⟨progress.entries ++ [⟨entryName index batch.extension, .deflated, content⟩],
        { progress.report with
          entries := progress.report.entries ++ [entryName index batch.extension] }⟩ outcomes := by
  cases hpolicy : batch.policy <;>
    simp [progressOf, stop?, entriesOf, skippedOf, hpolicy, Except.toOption, Except.error?]

theorem progressOf_skipped (hpolicy : batch.policy = .skip) (progress : Progress)
    (cause : ItemError) (index : Nat) (outcomes : List (Except ItemError Content × Nat)) :
    batch.progressOf progress ((.error cause, index) :: outcomes) =
      batch.progressOf { progress with report := { progress.report with
        skipped := progress.report.skipped ++ [⟨index, cause.message⟩] } } outcomes := by
  simp [progressOf, stop?, entriesOf, skippedOf, hpolicy, Except.toOption, Except.error?]

theorem progressOf_stopped (hpolicy : batch.policy = .abort) (progress : Progress)
    (cause : ItemError) (index : Nat) (outcomes : List (Except ItemError Content × Nat)) :
    batch.progressOf progress ((.error cause, index) :: outcomes) = .error (.item index cause) := by
  simp [progressOf, stop?, hpolicy, Except.error?]

theorem exists_renders (hconverter : ∀ c ∈ batch.converter, c.Computes conversion)
    (h : Workplace d directory archive) (contexts : List Context) :
    ∃ outcomes, List.Forall₂ (batch.Renders conversion) contexts outcomes := by
  induction contexts with
  | nil => exact ⟨[], .nil⟩
  | cons ctx contexts ih =>
    obtain ⟨r, -, -, hr, -⟩ := exists_runOn_makeItem hconverter h 0 ctx
    obtain ⟨outcomes, houtcomes⟩ := ih
    exact ⟨r :: outcomes, .cons hr houtcomes⟩

/-- Each document is added or reported by its own outcome, or the batch stops there. -/
theorem exists_runOn_addItems (hconverter : ∀ c ∈ batch.converter, c.Computes conversion)
    (h : Workplace d directory archive) (index : Nat) (progress : Progress)
    (contexts : List Context) :
    ∃ outcomes d', List.Forall₂ (batch.Renders conversion) contexts outcomes ∧
      (batch.addItems (pathOf directory) archive index progress contexts).runOn d =
        (batch.progressOf progress (outcomes.zipIdx index), d') ∧
      d.FilesOnly (Filling directory archive) d' := by
  induction contexts generalizing d index progress with
  | nil =>
    refine ⟨[], d, .nil, ?_, .refl d⟩
    rw [addItems, List.zipIdx_nil, progressOf_nil]
    rfl
  | cons ctx contexts ih =>
    obtain ⟨r, d₁, hmake, hr, honly₁, hcontent⟩ := exists_runOn_makeItem hconverter h index ctx
    have hworkplace := h.of_filesOnly honly₁
    have hfill₁ : d.FilesOnly (Filling directory archive) d₁ := honly₁.mono fun _ => .inl
    rw [addItems, Task.runOn_bind_of_ok (Task.runOn_outcome hmake)]
    cases r with
    | ok content =>
      have hfile := hworkplace.accepts_join (isPart_fileName hconverter index)
      have hne : directory ++ [batch.fileName index] ≠ archive := by
        intro heq
        exact h.apart (heq ▸ List.prefix_append ..)
      obtain ⟨d₂, hadd, honly₂⟩ := exists_runOn_addItem hworkplace progress
        (entryName index batch.extension) hfile (hcontent content rfl) hne
      obtain ⟨outcomes, d₃, houtcomes, hrest, honly₃⟩ :=
        ih (hworkplace.of_filesOnly honly₂) (index + 1) _
      refine ⟨.ok content :: outcomes, d₃, .cons hr houtcomes, ?_,
        hfill₁.trans ((honly₂.mono fun _ => .inr).trans honly₃)⟩
      rw [List.zipIdx_cons, progressOf_made]
      exact (Task.runOn_bind_of_ok hadd).trans hrest
    | error cause =>
      cases hpolicy : batch.policy with
      | abort =>
        obtain ⟨outcomes, houtcomes⟩ := exists_renders hconverter hworkplace contexts
        refine ⟨.error cause :: outcomes, d₁, .cons hr houtcomes, ?_, hfill₁⟩
        rw [List.zipIdx_cons, progressOf_stopped hpolicy]
        rfl
      | skip =>
        obtain ⟨outcomes, d₂, houtcomes, hrest, honly₂⟩ := ih hworkplace (index + 1) _
        refine ⟨.error cause :: outcomes, d₂, .cons hr houtcomes, ?_, hfill₁.trans honly₂⟩
        rw [List.zipIdx_cons, progressOf_skipped hpolicy]
        exact hrest

end Batch

end FormLetter
