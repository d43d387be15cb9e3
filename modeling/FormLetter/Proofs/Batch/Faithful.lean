import FormLetter.Proofs.Batch.Atomic
import FormLetter.Proofs.CommandLine.Rendering

/-!
# A batch is the renderings of its contexts

On a disk without faults, a batch comes to what the outcomes of its contexts make (`Batch.Follows`):
an archive of the documents that were made and a report on the others, or the first error. Each
outcome is the outcome of its context alone, which the command line shows, too (`write_faithful`).
-/

namespace FormLetter.Batch

open FormLetter.Disk FormLetter.CommandLine

variable {batch : Batch} {conversion : Content → Except ConvertError Content → Prop}
  {d d₁ : Disk} {directory archive t : Location} {output : String}

/-- A result of a batch is what outcomes make: the first error, if the batch is to stop there, or
else a report on all of them, with the archive of the documents at the output. -/
def Follows (batch : Batch) (output : String) (outcomes : List (Except ItemError Content))
    (result : Except BatchError BatchReport × Disk) : Prop :=
  let entries := entriesOf batch.extension outcomes.zipIdx
  match stop? batch.policy outcomes.zipIdx with
  | some e => result.1 = .error e
  | none => result.1 = .ok ⟨entries.map (·.name), skippedOf outcomes.zipIdx⟩ ∧
      result.2.fileAt? output = some (.archive entries)

/-- The archive is filled, and moved to the output unless the batch is to stop. -/
theorem exists_runOn_deliver (hconverter : ∀ c ∈ batch.converter, c.Computes conversion)
    (h : Workplace d directory archive) (ht : d.Accepts output t) (contexts : List Context) :
    ∃ outcomes d₁, List.Forall₂ (batch.Renders conversion) contexts outcomes ∧
      d.FilesOnly (Filling directory archive) d₁ ∧
      match stop? batch.policy outcomes.zipIdx with
      | some e =>
        (batch.deliver contexts output (pathOf directory) archive).runOn d = (.error e, d₁)
      | none =>
        let entries := entriesOf batch.extension outcomes.zipIdx
        d₁.content? archive = some (.archive entries) ∧
          (batch.deliver contexts output (pathOf directory) archive).runOn d =
            (.ok ⟨entries.map (·.name), skippedOf outcomes.zipIdx⟩,
              (d₁.remove archive).put t (.file (.archive entries) false)) := by
  obtain ⟨outcomes, d₁, houtcomes, hadd, honly₁⟩ :=
    exists_runOn_addItems hconverter h 0 {} contexts
  rw [progressOf] at hadd
  split at hadd
  · rename_i e hstop
    refine ⟨outcomes, d₁, houtcomes, honly₁, ?_⟩
    rw [hstop]
    exact Task.runOn_bind_of_error hadd
  · rename_i hstop
    obtain ⟨d₂, hwrite, honly₂, hcontent⟩ := exists_runOn_writeEntries (h.of_filesOnly honly₁)
      (entriesOf batch.extension outcomes.zipIdx)
    have honly := honly₁.trans (honly₂.mono fun _ => .inr)
    have hmove := runOn_move (honly.sound h.sound).faults (honly.accepts ht) hcontent
    refine ⟨outcomes, d₂, houtcomes, honly, ?_⟩
    rw [hstop]
    refine ⟨hcontent, ?_⟩
    calc (batch.deliver contexts output (pathOf directory) archive).runOn d
        = _ := Task.runOn_bind_of_ok hadd
      _ = _ := Task.runOn_bind_of_ok (Task.runOn_orError_of_ok _ hwrite)
      _ = _ := Task.runOn_bind_of_ok (Task.runOn_orError_of_ok _ hmove)

theorem exists_locate_directoryOf (ht : d.Accepts output t) : ∃ parent,
    d.locate (directoryOf output) = .ok parent ∧ d.isDirectory parent = true := by
  obtain ⟨parent, hparent, hfollow, -⟩ := exists_of_locate_output ht.endsInDirectory ht.locate
  obtain ⟨hne, habsolute, -⟩ := steps_directoryOf ht.endsInDirectory
  have hstart : d.start (directoryOf output) = d.start output := by
    rw [start, start, habsolute]
  exact ⟨parent, locate_eq_ok.2 ⟨hne, hstart.symm ▸ hfollow⟩, hparent⟩

theorem exists_follows_produce (hconverter : ∀ c ∈ batch.converter, c.Computes conversion)
    (hd : d.Sound) (ht : d.Accepts output t) (hnew : t ≠ d.newIn d.temporary)
    (hway : ∀ s ∈ steps (directoryOf output), s ≠ ".." → ∃ m, d.find? m = some .directory ∧ s ∈ m)
    (contexts : List Context) :
    ∃ outcomes, List.Forall₂ (batch.Renders conversion) contexts outcomes ∧
      batch.Follows output outcomes ((batch.produce contexts output).runOn d) := by
  have ht₁ := ht.withNewDirectory (ht.not_under_new hnew)
  obtain ⟨parent, hparent, hdirectory⟩ := exists_locate_directoryOf ht₁
  have hprepared := prepared d.faults d.withNewDirectory.faults hd.toRooted
    hd.reaches_working.isDirectory hway hparent
  have hfile : d.withNewDirectory.isDirectory (d.withNewDirectory.newIn parent) = false := by
    rw [isDirectory, newIn, find?_freshName _ parent (List.prefix_refl _)]
  have hreaches : d.withNewDirectory.Reaches parent :=
    (hd.withNewDirectory.reaches_start _).follow (locate_eq_ok.1 hparent).2 hdirectory
  have honly := FilesOnly.put hfile (.bytes .empty) false
  have hworkplace : Workplace (d.withNewDirectory.put (d.withNewDirectory.newIn parent)
      (.file (.bytes .empty) false)) (d.newIn d.temporary) (d.withNewDirectory.newIn parent) := by
    refine ⟨honly.sound hd.withNewDirectory, hd.isProper_new, honly.reaches hd.reaches_new,
      fun name => ?_, ?_, hprepared.apart⟩
    · rw [honly.isDirectory, isDirectory, find?_below_new (below_concat ..)]
    · exact honly.accepts (hreaches.accepts_pathOf_concat hprepared.isProper_archive hfile)
  obtain ⟨outcomes, d₁, houtcomes, hfill, hdeliver⟩ :=
    exists_runOn_deliver hconverter hworkplace (honly.accepts ht₁) contexts
  refine ⟨outcomes, houtcomes, ?_⟩
  rw [Follows]
  split at hdeliver
  · rw [produce, runOn_withTemporaryDirectory hd.faults
      (runOn_withTemporaryFile hd.withNewDirectory.faults hparent hdirectory hdeliver)]
  · obtain ⟨hcontent, hdeliver⟩ := hdeliver
    have haccepts := hfill.accepts (honly.accepts ht₁)
    obtain ⟨-, hlocate, hentries⟩ := hprepared.delivered hfill.toSameOutside
      haccepts.locate ht.endsInDirectory hcontent haccepts.isDirectory
    rw [produce, runOn_withTemporaryDirectory hd.faults
      (runOn_withTemporaryFile hd.withNewDirectory.faults hparent hdirectory hdeliver)]
    exact ⟨rfl, fileAt?_eq_some_iff.2 ⟨t, hlocate, hentries⟩⟩

theorem exists_follows_write (hconverter : ∀ c ∈ batch.converter, c.Computes conversion)
    (hd : d.Sound) (hmake : (makeDirectories (directoryOf output)).runOn d = (.ok (), d₁))
    (ht : d₁.Accepts output t) (hnew : t ≠ d₁.newIn d₁.temporary) (contexts : List Context) :
    ∃ outcomes, List.Forall₂ (batch.Renders conversion) contexts outcomes ∧
      batch.Follows output outcomes ((batch.write contexts output).runOn d) := by
  have hsteps := (runOn_makeDirectories_eq_ok hd.faults).1 hmake
  rw [write_eq, Task.runOn_bind_of_ok (Task.runOn_orError_of_ok _ hmake)]
  exact exists_follows_produce hconverter (hd.of_makeSteps hsteps) ht hnew
    (fun s hs hup => exists_of_makeSteps hsteps hs hup) contexts

/-- Where an output can be written, other than where the working directory is made, a batch is the
outcomes of its contexts, each of them alone. If it is to skip what fails, or nothing does, the
archive at the output has the documents that were made, and the report names them and tells of the
others, all in the order of the contexts. If it is to stop, it does so with the first error. With
each of these outcomes the command line agrees. -/
theorem write_faithful (hconverter : ∀ c ∈ batch.converter, c.Computes conversion) (hd : d.Sound)
    (hmake : (makeDirectories (directoryOf output)).runOn d = (.ok (), d₁))
    (ht : d₁.Accepts output t) (hnew : t ≠ d₁.newIn d₁.temporary) (contexts : List Context) :
    ∃ outcomes, List.Forall₂ (batch.Renders conversion) contexts outcomes ∧
      (batch.policy = .skip ∨ (∀ r ∈ outcomes, r.isOk = true) →
        let entries := entriesOf batch.extension outcomes.zipIdx
        ∃ d', (batch.write contexts output).runOn d =
            (.ok ⟨entries.map (·.name), skippedOf outcomes.zipIdx⟩, d') ∧
          d'.fileAt? output = some (.archive entries)) ∧
      (batch.policy = .abort → ∀ i cause, outcomes[i]? = some (.error cause) →
        (∀ j < i, ∃ content, outcomes[j]? = some (.ok content)) →
        ∃ d', (batch.write contexts output).runOn d = (.error (.item i cause), d')) ∧
      List.Forall₂ (CommandLine.Agrees batch conversion) contexts outcomes := by
  obtain ⟨outcomes, houtcomes, hfollows⟩ :=
    exists_follows_write hconverter hd hmake ht hnew contexts
  rw [Follows] at hfollows
  refine ⟨outcomes, houtcomes, fun hgoes => ?_, fun hpolicy i cause hi hbefore => ?_,
    houtcomes.imp fun _ _ => CommandLine.agrees_of_renders hconverter⟩
  · rw [stop?_eq_none hgoes] at hfollows
    exact ⟨_, Prod.ext hfollows.1 rfl, hfollows.2⟩
  · rw [hpolicy, stop?_eq_some hi hbefore, Nat.zero_add] at hfollows
    exact ⟨_, Prod.ext hfollows rfl⟩

/-! ## Reminders -/

/-- A program that prints documents as they are. -/
def press : Runner := fun _ arguments =>
  match arguments with
  | [_, _, format, imported, _, directory] => do
    copy imported (join directory (Converter.exportedName format))
    return ⟨some 0, .empty⟩
  | _ => throw .notFound

/-- What the press answers: it succeeds, with the document that it reads. -/
def Printed (content : Content) (r : Except OsError Outcome) (out : Option Content) : Prop :=
  r = .ok ⟨some 0, .empty⟩ ∧ out = some content

theorem answers_press (binary : String) {format : String} (h : '/' ∉ format.toList) :
    press.Answers binary format Printed := by
  intro d directory content hstart
  have hread := hstart.reaches.accepts_join hstart.isProper Converter.isPart_importedName
    (hstart.isDirectory_concat Converter.importedName)
  have hwrite := hstart.reaches.accepts_join hstart.isProper (Converter.isPart_exportedName h)
    (hstart.isDirectory_concat (Converter.exportedName format))
  obtain ⟨d', hcopy, honly, hcopied⟩ :=
    runOn_copy hstart.sound.faults hread hstart.imported hwrite
  refine ⟨.ok ⟨some 0, .empty⟩, some content, d', Task.runOn_bind_of_ok hcopy, ⟨rfl, rfl⟩,
    ⟨honly.below.toSameOutside.mono fun _ => And.left, honly.faults, ?_, hcopied⟩⟩
  exact (honly.isDirectory directory).trans hstart.reaches.isDirectory

/-- Reminders of a year, printed. -/
def reminders : Batch where
  engine := ⟨.builtin, .html⟩
  template := ⟨[], none, .element "p" [] [.text "Due \x7b$day | date *%Y*\x7d"]⟩
  converter := some (.office press "soffice" "pdf")
  policy := .skip

def days : List Context :=
  [.empty, .ofFields [("day", .text "soon")], .ofFields [("day", .text "2024-02-29")]]

theorem reminders_write : ∃ outcomes d',
    List.Forall₂ (reminders.Renders (Converter.OfficeConversion "soffice" "pdf" Printed)) days
      outcomes ∧
    (reminders.write days "letters.zip").runOn desk = (.ok ⟨["document0.pdf", "document2.pdf"],
      [⟨1, "Filter 'date' failed: 'soon' is not a recognised date"⟩]⟩, d') ∧
    d'.fileAt? "letters.zip" = some (.archive (entriesOf "pdf" outcomes.zipIdx)) := by
  have hconverter : ∀ c ∈ reminders.converter,
      c.Computes (Converter.OfficeConversion "soffice" "pdf" Printed) := by
    rintro c ⟨⟩
    exact Converter.computes_office (answers_press "soffice" (by decide)) (by decide)
  have hd : desk.Sound :=
    ⟨⟨by decide +kernel, by decide +kernel⟩, rfl, by decide +kernel, by decide +kernel⟩
  have hdot : directoryOf "letters.zip" = "." := by decide +kernel
  have hmake : (makeDirectories (directoryOf "letters.zip")).runOn desk = (.ok (), desk) := by
    rw [hdot]
    exact (runOn_makeDirectories_eq_ok rfl).2 rfl
  have ht : desk.Accepts "letters.zip" ["home", "letters.zip"] :=
    ⟨rfl, by decide +kernel, by decide +kernel⟩
  have hnew : ["home", "letters.zip"] ≠ desk.newIn desk.temporary := by decide +kernel
  obtain ⟨outcomes, houtcomes, hgoes, -⟩ := write_faithful hconverter hd hmake ht hnew days
  obtain ⟨d', hrun, hfile⟩ := hgoes (.inl rfl)
  have hreport : ((reminders.write days "letters.zip").runOn desk).1.toOption =
      some ⟨["document0.pdf", "document2.pdf"],
        [⟨1, "Filter 'date' failed: 'soon' is not a recognised date"⟩]⟩ := by decide +kernel
  rw [hrun] at hreport
  refine ⟨outcomes, d', houtcomes, ?_, hfile⟩
  rw [hrun, Option.some.inj hreport]

end FormLetter.Batch
