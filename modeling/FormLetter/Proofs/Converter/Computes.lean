import FormLetter.Proofs.Converter.Contained
import FormLetter.Proofs.Disk.Sound

/-!
# What converters compute

A converter computes a conversion if what comes of a file depends on nothing but its content
(`Converter.Computes`). A conversion is a relation, since an error may name a temporary file. The
office converter computes the conversion that its program's answers make (`computes_office`).
-/

namespace FormLetter

open FormLetter.Disk FormLetter.Text

/-- On a sound disk, what comes of a file is what the conversion gives for its content. Nothing but
the target is changed, and if all goes well, the result is there. -/
structure Converter.Computes (c : Converter)
    (conversion : Content → Except ConvertError Content → Prop) : Prop where
  extension : '/' ∉ c.extension.toList
  converts : ∀ {d : Disk} {source target : String} {s t : Location} {content : Content}, d.Sound →
    d.Accepts source s → d.content? s = some content → d.Accepts target t →
    ¬IsMadeUp (lastPart target) → s ≠ t →
    ∃ r d', (c.convert source target).runOn d = (r.map fun _ => (), d') ∧ conversion content r ∧
      d.FilesOnly (· = t) d' ∧ ∀ out, r = .ok out → d'.content? t = some out

namespace Converter

def exportedName (format : String) : String := documentName ++ "." ++ format

theorem isPart_exportedName {format : String} (h : '/' ∉ format.toList) :
    IsPart (exportedName format) :=
  isPart_append (c := 'd') (by decide) (by decide) (by decide) h

end Converter

open Converter

/-- A disk where a program is to run: there is nothing in its directory but the document. -/
structure Runner.Start (d : Disk) (directory : Location) (content : Content) : Prop where
  sound : d.Sound
  isProper : IsProper directory
  reaches : d.Reaches directory
  imported : d.content? (directory ++ [importedName]) = some content
  alone : ∀ m, Below directory m → m ≠ directory ++ [importedName] → d.find? m = none

/-- What a program leaves: only its directory has changed, and there it has written a document or
has not. -/
structure Runner.End (d d' : Disk) (directory : Location) (format : String) (out : Option Content) :
    Prop where
  same : d.SameOutside (directory <+: ·) d'
  faults : d'.faults = d.faults
  isDirectory : d'.isDirectory directory = true
  exported : match out with
    | none => d'.find? (directory ++ [exportedName format]) = none
    | some content => d'.content? (directory ++ [exportedName format]) = some content

/-- How a program ends, and the document that it writes, depend on nothing but the content of the
document that it reads. -/
def Runner.Answers (run : Runner) (binary format : String)
    (answer : Content → Except OsError Outcome → Option Content → Prop) : Prop :=
  ∀ {d : Disk} {directory : Location} {content : Content}, Runner.Start d directory content →
    ∃ r out d', (run binary (officeArguments format (join (pathOf directory) importedName)
        (pathOf directory))).runOn d = (r, d') ∧
      answer content r out ∧ Runner.End d d' directory format out

/-- What the office converter makes of an answer. -/
inductive Converter.OfficeConversion (binary format : String)
    (answer : Content → Except OsError Outcome → Option Content → Prop) (content : Content) :
    Except ConvertError Content → Prop where
  | absent {e : OsError} {out : Option Content} : answer content (.error e) out →
    OfficeConversion binary format answer content (.error (.io ("run " ++ binary) e))
  | failed {outcome : Outcome} {out : Option Content} : answer content (.ok outcome) out →
    outcome.status ≠ some 0 →
    OfficeConversion binary format answer content (.error (.failed outcome.status
      (String.ofList (trim (Utf8.decode outcome.errors).toList))))
  | missing {outcome : Outcome} (directory : String) : answer content (.ok outcome) none →
    outcome.status = some 0 →
    OfficeConversion binary format answer content
      (.error (.missingOutput (join directory (exportedName format))))
  | made {outcome : Outcome} {out : Content} : answer content (.ok outcome) (some out) →
    outcome.status = some 0 → OfficeConversion binary format answer content (.ok out)

namespace Runner

variable {d d' : Disk} {directory : Location} {content out : Content} {format : String}

theorem Start.eq_of_isDirectory (h : Start d directory content) {m : Location}
    (hm : d.isDirectory m = true) (hp : directory <+: m) : m = directory := by
  have hfind := isDirectory_iff.1 hm
  by_cases hne : m = directory
  · exact hne
  · by_cases himported : m = directory ++ [importedName]
    · obtain ⟨executable, hfile⟩ := content?_eq_some_iff.1 h.imported
      cases (himported ▸ hfile).symm.trans hfind
    · cases (h.alone m ⟨hp, hne⟩ himported).symm.trans hfind

theorem Start.isDirectory_concat (h : Start d directory content) (name : String) :
    d.isDirectory (directory ++ [name]) = false := by
  rw [Bool.eq_false_iff]
  intro hdirectory
  have heq := h.eq_of_isDirectory hdirectory (List.prefix_append ..)
  simp at heq

theorem Start.isDirectory_of_end {out : Option Content} (h : Start d directory content)
    (hend : End d d' directory format out) {m : Location} (hm : d.isDirectory m = true) :
    d'.isDirectory m = true := by
  by_cases hp : directory <+: m
  · rw [h.eq_of_isDirectory hm hp]
    exact hend.isDirectory
  · rwa [isDirectory_congr (hend.same.find? m hp)]

theorem Start.sound_of_end {out : Option Content} (h : Start d directory content)
    (hend : End d d' directory format out) : d'.Sound :=
  h.sound.of_le hend.same.working hend.same.temporary hend.faults fun _ =>
    h.isDirectory_of_end hend

theorem Start.accepts_of_end {out : Option Content} (h : Start d directory content)
    (hend : End d d' directory format out) {path : String} {t : Location} (ht : d.Accepts path t)
    (hp : ¬directory <+: t) : d'.Accepts path t := by
  refine ⟨locate_of_le hend.same.working (fun _ => h.isDirectory_of_end hend) ht.locate, ?_,
    ht.endsInDirectory⟩
  rw [isDirectory_congr (hend.same.find? t hp)]
  exact ht.isDirectory

theorem Start.accepts_exported (h : Start d directory content)
    (hend : End d d' directory format (some out)) (hformat : '/' ∉ format.toList) :
    d'.Accepts (join (pathOf directory) (exportedName format))
      (directory ++ [exportedName format]) := by
  obtain ⟨executable, hfile⟩ := content?_eq_some_iff.1 hend.exported
  refine (h.reaches.mono fun _ => h.isDirectory_of_end hend).accepts_join h.isProper
    (isPart_exportedName hformat) ?_
  rw [Disk.isDirectory, hfile]

theorem Start.isThere_of_end {out : Option Content} (h : Start d directory content)
    (hend : End d d' directory format out) (hformat : '/' ∉ format.toList) :
    isThere (join (pathOf directory) (exportedName format)) d' = out.isSome := by
  have hreaches := h.reaches.mono fun _ => h.isDirectory_of_end hend
  have hpart := isPart_exportedName hformat
  have hends : endsInDirectory (join (pathOf directory) (exportedName format)) = false := by
    refine endsInDirectory_of_isPart ?_
    rwa [lastPart_join hpart]
  have hexported := hend.exported
  rw [isThere, hreaches.locate_join h.isProper hpart, hends]
  cases out with
  | none => exact congrArg Option.isSome hexported
  | some content =>
    obtain ⟨executable, hfile⟩ := content?_eq_some_iff.1 hexported
    exact congrArg Option.isSome hfile

end Runner

namespace Converter

variable {d : Disk} {source target binary format : String} {s t : Location} {content : Content}

/-- The document is copied into a new directory for the program. -/
theorem exists_start (hd : d.Sound) (hs : d.Accepts source s)
    (hcontent : d.content? s = some content) :
    ∃ d', (copy source (join (pathOf (d.newIn d.temporary)) importedName)).runOn
        d.withNewDirectory = (.ok (), d') ∧
      Runner.Start d' (d.newIn d.temporary) content ∧
      d.withNewDirectory.FilesOnly (d.newIn d.temporary <+: ·) d' := by
  have hnew := not_under_new_of_content? hcontent
  have hsource : d.withNewDirectory.content? s = some content := by
    rwa [content?_congr (d.find?_withNewDirectory hnew)]
  obtain ⟨d', hcopy, honly, hcopied⟩ :=
    runOn_copy hd.withNewDirectory.faults (hs.withNewDirectory hnew) hsource
      (hd.accepts_new isPart_importedName)
  refine ⟨d', hcopy, ⟨honly.sound hd.withNewDirectory, hd.isProper_new,
    honly.reaches hd.reaches_new, hcopied, fun m hm hne => ?_⟩, honly.below.mono fun _ => And.left⟩
  rw [honly.find? m hne]
  exact find?_below_new hm

theorem filesOnly_of_end {S : Location → Prop} {d₁ d₂ d₃ : Disk} {out : Option Content}
    (hstart : d.withNewDirectory.FilesOnly (d.newIn d.temporary <+: ·) d₁)
    (hend : Runner.End d₁ d₂ (d.newIn d.temporary) format out) (h : d₂.FilesOnly S d₃) :
    d.FilesOnly S (d₃.remove (d.newIn d.temporary)) := by
  refine filesOnly_remove_new ?_ (h.faults.trans (hend.faults.trans hstart.faults)) fun m hm => ?_
  · exact (hstart.mono fun _ => .inr).toSameOutside.trans
      ((hend.same.mono fun _ => .inr).trans (h.mono fun _ => .inl).toSameOutside)
  · exact (h.isDirectory m).trans
      ((isDirectory_congr (hend.same.find? m hm)).trans (hstart.isDirectory m))

/-- What the office converter does when the document is in the directory of the program. -/
def finish (run : Runner) (binary format target directory : String) : Task ConvertError Unit := do
  let exported := join directory (exportedName format)
  let outcome ← (run binary (officeArguments format (join directory importedName)
    directory)).orError (.io ("run " ++ binary))
  if outcome.status ≠ some 0 then
    throw (.failed outcome.status (String.ofList (trim (Utf8.decode outcome.errors).toList)))
  if !isThere exported (← get) then throw (.missingOutput exported)
  (copy exported target).orError (.io ("move converted document to " ++ target))

theorem convert_office (run : Runner) (binary format source target : String) :
    (office run binary format).convert source target =
      withTemporaryDirectory (.io "create temporary directory for conversion") fun directory => (do
        (copy source (join directory importedName)).orError
          (.io ("copy " ++ join directory importedName ++ " for conversion"))
        finish run binary format target directory) :=
  rfl

/-- What is made of the end of a program and of the document that it is to write. -/
def conclusion (binary format directory : String) (r : Except OsError Outcome)
    (out : Option Content) : Except ConvertError Content :=
  match r with
  | .error e => .error (.io ("run " ++ binary) e)
  | .ok outcome =>
    if outcome.status ≠ some 0 then
      .error (.failed outcome.status (String.ofList (trim (Utf8.decode outcome.errors).toList)))
    else out.elim (.error (.missingOutput (join directory (exportedName format)))) .ok

section Conclusion

variable {directory : String} {outcome : Outcome} {out : Option Content}

theorem conclusion_of_failed (h : outcome.status ≠ some 0) :
    conclusion binary format directory (.ok outcome) out = .error (.failed outcome.status
      (String.ofList (trim (Utf8.decode outcome.errors).toList))) :=
  if_pos h

theorem conclusion_of_ended (h : outcome.status = some 0) :
    conclusion binary format directory (.ok outcome) out =
      out.elim (.error (.missingOutput (join directory (exportedName format)))) .ok :=
  if_neg fun hne => hne h

theorem officeConversion_conclusion
    {answer : Content → Except OsError Outcome → Option Content → Prop}
    {r : Except OsError Outcome} (directory : String) (h : answer content r out) :
    OfficeConversion binary format answer content (conclusion binary format directory r out) := by
  cases r with
  | error e => exact .absent h
  | ok outcome =>
    by_cases hstatus : outcome.status = some 0
    · rw [conclusion_of_ended hstatus]
      cases out with
      | none => exact .missing directory h hstatus
      | some out => exact .made h hstatus
    · rw [conclusion_of_failed hstatus]
      exact .failed h hstatus

end Conclusion

/-- When the program has ended, its end and the document at the path that it was to be written to
are made into a result. -/
theorem exists_runOn_finish_of_end {run : Runner} {directory : Location} {d₂ : Disk}
    {r : Except OsError Outcome} {out : Option Content}
    (hstart : Runner.Start d directory content)
    (hprogram : (run binary (officeArguments format (join (pathOf directory) importedName)
      (pathOf directory))).runOn d = (r, d₂))
    (hend : Runner.End d d₂ directory format out)
    (hthere : isThere (join (pathOf directory) (exportedName format)) d₂ = out.isSome)
    (hformat : out.isSome = true → '/' ∉ format.toList)
    (ht : d.Accepts target t) (hp : ¬directory <+: t) :
    ∃ d₃, (finish run binary format target (pathOf directory)).runOn d =
        ((conclusion binary format (pathOf directory) r out).map fun _ => (), d₃) ∧
      d₂.FilesOnly (· = t) d₃ ∧ match conclusion binary format (pathOf directory) r out with
        | .ok content => d₃.content? t = some content
        | .error _ => d₃ = d₂ := by
  cases r with
  | error e =>
    exact ⟨d₂, Task.runOn_bind_of_error (Task.runOn_orError_of_error _ hprogram), .refl d₂, rfl⟩
  | ok outcome =>
    rw [finish, Task.runOn_bind_of_ok (Task.runOn_orError_of_ok _ hprogram)]
    by_cases hstatus : outcome.status = some 0
    · rw [if_neg fun h => h hstatus, conclusion_of_ended hstatus]
      have hget : Task.runOn (get : Task ConvertError Disk) d₂ = (.ok d₂, d₂) := rfl
      rw [Task.runOn_bind_of_ok hget, hthere]
      cases out with
      | none => exact ⟨d₂, rfl, .refl d₂, rfl⟩
      | some out =>
        obtain ⟨d₃, hcopy, honly, hcopied⟩ := runOn_copy (hstart.sound_of_end hend).faults
          (hstart.accepts_exported hend (hformat rfl)) hend.exported
          (hstart.accepts_of_end hend ht hp)
        exact ⟨d₃, Task.runOn_orError_of_ok _ hcopy, honly, hcopied⟩
    · rw [if_pos hstatus, conclusion_of_failed hstatus]
      exact ⟨d₂, rfl, .refl d₂, rfl⟩

theorem exists_runOn_finish {run : Runner} {directory : Location}
    {answer : Content → Except OsError Outcome → Option Content → Prop}
    (hrun : run.Answers binary format answer) (hformat : '/' ∉ format.toList)
    (hstart : Runner.Start d directory content) (ht : d.Accepts target t)
    (hp : ¬directory <+: t) :
    ∃ r out d₂ d₃, (finish run binary format target (pathOf directory)).runOn d =
        (r.map fun _ => (), d₃) ∧
      OfficeConversion binary format answer content r ∧ Runner.End d d₂ directory format out ∧
        d₂.FilesOnly (· = t) d₃ ∧ ∀ content, r = .ok content → d₃.content? t = some content := by
  obtain ⟨r, out, d₂, hprogram, hanswer, hend⟩ := hrun hstart
  obtain ⟨d₃, hfinish, honly, hout⟩ := exists_runOn_finish_of_end hstart hprogram hend
    (hstart.isThere_of_end hend hformat) (fun _ => hformat) ht hp
  refine ⟨_, out, d₂, d₃, hfinish, officeConversion_conclusion _ hanswer, hend, honly,
    fun content hr => ?_⟩
  rwa [hr] at hout

/-- The office converter computes what the answers of its program make. -/
theorem computes_office {run : Runner}
    {answer : Content → Except OsError Outcome → Option Content → Prop}
    (hrun : run.Answers binary format answer) (hformat : '/' ∉ format.toList) :
    (office run binary format).Computes (OfficeConversion binary format answer) := by
  refine ⟨hformat, fun {d source target s t content} hd hs hcontent ht hname _ => ?_⟩
  have hnew := ht.not_under_new (ht.ne_new hname)
  obtain ⟨d₁, hcopy, hstart, honly⟩ := exists_start hd hs hcontent
  obtain ⟨r, out, d₂, d₃, hfinish, hconversion, hend, hfinal, hout⟩ := exists_runOn_finish hrun
    hformat hstart (honly.accepts (ht.withNewDirectory hnew)) hnew
  refine ⟨r, d₃.remove (d.newIn d.temporary), ?_, hconversion, filesOnly_of_end honly hend hfinal,
    fun content hr => ?_⟩
  · rw [convert_office]
    exact runOn_withTemporaryDirectory hd.faults
      ((Task.runOn_bind_of_ok (Task.runOn_orError_of_ok _ hcopy)).trans hfinish)
  · rw [content?_congr (d := d₃)]
    · exact hout content hr
    · rw [find?_remove (d.newIn_ne_nil _), if_neg hnew]

end Converter

end FormLetter
