import FormLetter.Proofs.Batch.Assembly

/-!
# A batch is written as a whole or not at all

The archive is filled in a new file, next to a new working directory (`Prepared`), and moved to the
output when it is complete (`deliver_cases`). So if a batch fails, at whatever step, everything on
the disk is as it was, but for directories on the way to the output; if it succeeds, the complete
archive is at the output and nothing else has changed (`write_atomic`).
-/

namespace FormLetter.Batch

open FormLetter.Disk

variable {batch : Batch} {contexts : List Context} {output : String} {directory archive : Location}
  {d d' d₁ : Disk}

/-- Fills the archive and moves it to the output. -/
def deliver (batch : Batch) (contexts : List Context) (output : String) (directory : String)
    (archive : Location) : Task BatchError BatchReport := do
  let progress ← batch.addItems directory archive 0 {} contexts
  (writeEntries archive progress.entries).orError .archive
  (move archive output).orError (.io ("move archive to " ++ output))
  return progress.report

/-- Makes the archive where the directory of the output is there. -/
def produce (batch : Batch) (contexts : List Context) (output : String) :
    Task BatchError BatchReport :=
  withTemporaryDirectory (.io "create temporary working directory") fun directory =>
    withTemporaryFile (directoryOf output)
      (.io ("create temporary archive in " ++ directoryOf output))
      (batch.deliver contexts output directory)

theorem write_eq (batch : Batch) (contexts : List Context) (output : String) :
    batch.write contexts output = (do
      (makeDirectories (directoryOf output)).orError
        (.io ("create directory " ++ directoryOf output))
      batch.produce contexts output) :=
  rfl

theorem directoryOf_eq {parent : String} (h : parent? output = some parent) :
    directoryOf output = if parent = "" then "." else parent := by
  rw [directoryOf, h]
  split
  · contradiction
  · rename_i heq
    rw [if_pos (Option.some.inj heq)]
  · rename_i hne heq
    cases heq
    rw [if_neg hne]

theorem steps_directoryOf (h : endsInDirectory output = false) :
    directoryOf output ≠ "" ∧ isAbsolute (directoryOf output) = isAbsolute output ∧
      steps output = steps (directoryOf output) ++ [lastPart output] := by
  obtain ⟨parent, hparent, habsolute, hsteps⟩ := exists_parent? h
  rw [directoryOf_eq hparent]
  split
  · rename_i hempty
    subst hempty
    exact ⟨by decide, habsolute, hsteps⟩
  · rename_i hempty
    exact ⟨hempty, habsolute, hsteps⟩

theorem exists_of_locate_output {t : Location} (h : endsInDirectory output = false)
    (ht : d.locate output = .ok t) : ∃ parent, d.isDirectory parent = true ∧
      d.follow (d.start output) (steps (directoryOf output)) = .ok parent ∧
        t = parent ++ [lastPart output] := by
  have hparent := exists_of_locate h ht
  rwa [(steps_directoryOf h).2.2, List.dropLast_concat] at hparent

/-- A disk that has a new working directory and a new file for the archive, apart from that. The
way to the output does not lead through the working directory. -/
structure Prepared (d : Disk) (output : String) (directory archive : Location) (d' : Disk) :
    Prop where
  isProper_directory : IsProper directory
  isProper_archive : IsProper archive
  ne_nil : directory ≠ [] ∧ archive ≠ []
  directory_new : ∀ l, directory <+: l → d.find? l = none
  archive_new : ∀ l, archive <+: l → d.find? l = none
  apart : ¬directory <+: archive
  isDirectory : d'.isDirectory directory = true
  same : d.SameOutside (fun l => l = directory ∨ l = archive) d'
  off_way : ∀ m,
    (∀ n ∈ m, n ∈ d.start (directoryOf output) ∨ n ∈ steps (directoryOf output)) → ¬directory <+: m

/-- What delivering comes to: a failure that has changed only what is being filled, or an archive
that is complete and at the output. -/
theorem deliver_cases (contexts : List Context) (output : String) (h : batch.Contained)
    (hd : d.Rooted) (hdirectory : IsProper directory) (harchive : IsProper archive)
    (hapart : ¬Below directory archive) :
    (∃ e d', (batch.deliver contexts output (pathOf directory) archive).runOn d = (.error e, d') ∧
        d.SameOutside (Filling directory archive) d') ∨
      ∃ entries skipped t d₁ d', batch.Assembled 0 contexts entries skipped ∧
        d.SameOutside (Filling directory archive) d₁ ∧
        d₁.content? archive = some (.archive entries) ∧
        d₁.locate output = .ok t ∧ d₁.isDirectory t = false ∧ endsInDirectory output = false ∧
        d' = (d₁.remove archive).put t (.file (.archive entries) false) ∧
        (batch.deliver contexts output (pathOf directory) archive).runOn d =
          (.ok ⟨entries.map (·.name), skipped⟩, d') := by
  have hfill := changesOnly_addItems h hdirectory harchive 0 {} contexts
  cases hadd : (batch.addItems (pathOf directory) archive 0 {} contexts).runOn d with
  | mk r d₁ =>
    have hsame₁ := hfill.sameOutside hd hadd
    cases r with
    | error e => exact .inl ⟨e, d₁, Task.runOn_bind_of_error hadd, hsame₁⟩
    | ok progress =>
      obtain ⟨entries, skipped, hassembled, rfl⟩ :=
        assembled_of_addItems h hd hdirectory harchive hapart hadd
      have hwrites := changesOnly_writeEntries harchive entries
      cases hwrite : (writeEntries archive entries).runOn d₁ with
      | mk r d₂ =>
        have hsame₂ := hsame₁.trans
          ((hwrites.sameOutside (hsame₁.rooted hd) hwrite).mono fun _ => Or.inr)
        cases r with
        | error e =>
          refine .inl ⟨.archive e, d₂, (Task.runOn_bind_of_ok hadd).trans ?_, hsame₂⟩
          exact Task.runOn_bind_of_error (Task.runOn_orError_of_error _ hwrite)
        | ok _ =>
          have hrun : (batch.deliver contexts output (pathOf directory) archive).runOn d =
              (do
                (move archive output).orError (.io ("move archive to " ++ output))
                return ⟨entries.map (·.name), skipped⟩ : Task BatchError BatchReport).runOn d₂ :=
            (Task.runOn_bind_of_ok hadd).trans
              (Task.runOn_bind_of_ok (Task.runOn_orError_of_ok _ hwrite))
          have hcontent := content?_of_writeEntries harchive hwrite
          obtain ⟨faults, ⟨e, hmove⟩ | ⟨t, content, ht, -, hdt, hends, hsource, hmove⟩⟩ :=
            move_cases archive output d₂
          · refine .inl ⟨.io ("move archive to " ++ output) e, _, hrun.trans ?_,
              hsame₂.trans (.withFaults d₂ faults)⟩
            exact Task.runOn_bind_of_error (Task.runOn_orError_of_error _ hmove)
          · cases hcontent.symm.trans hsource
            refine .inr ⟨entries, skipped, t, { d₂ with faults := faults }, _, hassembled,
              hsame₂.trans (.withFaults d₂ faults), hcontent, ?_, hdt, hends, rfl, hrun.trans ?_⟩
            · rw [locate_withFaults]
              exact ht
            · exact Task.runOn_bind_of_ok (Task.runOn_orError_of_ok _ hmove)

namespace Prepared

variable (h : Prepared d output directory archive d')
  (hfill : d'.SameOutside (Filling directory archive) d₁)

include h hfill

/-- Outside of what is new, the disk is as it was before. -/
theorem find?_eq {l : Location} (hl : ¬directory <+: l) (hne : l ≠ archive) :
    d₁.find? l = d.find? l := by
  have hfilling : ¬Filling directory archive l := by
    rintro (hbelow | rfl)
    · exact hl hbelow.1
    · exact hne rfl
  have hnew : ¬(l = directory ∨ l = archive) := by
    rintro (rfl | rfl)
    · exact hl (List.prefix_refl _)
    · exact hne rfl
  exact (hfill.find? l hfilling).trans (h.same.find? l hnew)

theorem cleared_eq (l : Location) :
    (if directory <+: l then none else if archive <+: l then none else d₁.find? l) = d.find? l := by
  by_cases hl : directory <+: l
  · rw [if_pos hl, h.directory_new l hl]
  · rw [if_neg hl]
    by_cases ha : archive <+: l
    · rw [if_pos ha, h.archive_new l ha]
    · rw [if_neg ha]
      exact h.find?_eq hfill hl (ne_of_not_under ha)

theorem sameOutside_cleared :
    d.SameOutside (fun _ => False) ((d₁.remove archive).remove directory) := by
  refine ⟨hfill.working.trans h.same.working, hfill.temporary.trans h.same.temporary,
    fun l _ => ?_⟩
  rw [find?_remove h.ne_nil.1, find?_remove h.ne_nil.2]
  exact h.cleared_eq hfill l

theorem start_output (hends : endsInDirectory output = false) :
    d₁.start output = d.start (directoryOf output) := by
  rw [start, start, hfill.working, h.same.working, (steps_directoryOf hends).2.1]

variable {t : Location} (ht : d₁.locate output = .ok t) (hends : endsInDirectory output = false)

include ht hends

theorem not_under_output (hdt : d₁.isDirectory t = false) : ¬directory <+: t := by
  obtain ⟨parent, -, hparent, hlast⟩ := exists_of_locate_output hends ht
  intro hp
  rw [hlast, List.prefix_concat_iff, ← hlast] at hp
  rcases hp with heq | hp
  · have hsame : d₁.find? directory = d'.find? directory := by
      refine hfill.find? directory ?_
      rintro (hbelow | heq)
      · exact hbelow.2 rfl
      · exact h.apart (heq ▸ List.prefix_refl _)
    rw [← heq, isDirectory_congr hsame, h.isDirectory] at hdt
    cases hdt
  · refine h.off_way parent (fun n hn => ?_) hp
    rw [eq_of_follow hparent, h.start_output hfill hends] at hn
    exact (mem_of_mem_foldl_walk hn).imp_right And.left

/-- The path of the output leads on if all is kept that is not new. -/
theorem locate_of_kept {d₂ : Disk} (hfile : (d₁.content? archive).isSome = true)
    (hworking : d₂.working = d₁.working)
    (hkept : ∀ m, ¬directory <+: m → ¬archive <+: m → d₁.isDirectory m = true →
      d₂.isDirectory m = true) : d₂.locate output = .ok t := by
  obtain ⟨hne, hfollow⟩ := locate_eq_ok.1 ht
  have hstart : d₂.start output = d.start (directoryOf output) := by
    rw [← h.start_output hfill hends, start, start, hworking]
  refine locate_eq_ok.2 ⟨hne, ?_⟩
  rw [h.start_output hfill hends, ← hstart] at hfollow
  refine follow_of_le (fun m hm hnames => ?_) hfollow
  rw [hstart, (steps_directoryOf hends).2.2, List.dropLast_concat] at hnames
  have hd := h.off_way m hnames
  refine hkept m hd (fun hp => ?_) hm
  -- the archive is a file, and there is nothing below it
  rw [isDirectory_iff] at hm
  by_cases heq : m = archive
  · obtain ⟨content, hcontent⟩ := Option.isSome_iff_exists.1 hfile
    obtain ⟨executable, hfile⟩ := content?_eq_some_iff.1 hcontent
    rw [heq, hfile] at hm
    cases hm
  · rw [h.find?_eq hfill hd heq, h.archive_new m hp] at hm
    cases hm

/-- When the complete archive is moved to the output, the rest is as it was before. -/
theorem delivered {entries : List Content.Entry}
    (hcontent : d₁.content? archive = some (.archive entries)) (hdt : d₁.isDirectory t = false) :
    let d₂ := ((d₁.remove archive).put t (.file (.archive entries) false)).remove directory
    d.SameOutside (· = t) d₂ ∧ d₂.locate output = .ok t ∧
      d₂.content? t = some (.archive entries) := by
  intro d₂
  have hfind : ∀ l, d₂.find? l = if directory <+: l then none else
      if l = t then some (.file (.archive entries) false) else
        if archive <+: l then none else d₁.find? l := by
    intro l
    rw [find?_remove h.ne_nil.1, find?_put (ne_nil_of_isDirectory_eq_false hdt),
      find?_remove h.ne_nil.2]
  have hsame : d.SameOutside (· = t) d₂ := by
    refine ⟨hfill.working.trans h.same.working, hfill.temporary.trans h.same.temporary,
      fun l hl => ?_⟩
    rw [hfind, if_neg hl]
    exact h.cleared_eq hfill l
  refine ⟨hsame, h.locate_of_kept hfill ht hends (by rw [hcontent]; rfl) rfl
    fun m hd ha hm => ?_, content?_eq_some_iff.2 ⟨false, ?_⟩⟩
  · have hmt : m ≠ t := by
      rintro rfl
      rw [hdt] at hm
      cases hm
    rwa [isDirectory_congr (d := d₁) (by rw [hfind, if_neg hd, if_neg hmt, if_neg ha])]
  · rw [hfind, if_neg (h.not_under_output hfill ht hends hdt), if_pos rfl]

end Prepared

/-! ## Preparing -/

theorem freshName_off_way {d : Disk} (hworking : d.isDirectory d.working = true)
    (hway : ∀ s ∈ steps (directoryOf output), s ≠ ".." → ∃ m, d.find? m = some .directory ∧ s ∈ m)
    {m : Location}
    (hm : ∀ n ∈ m, n ∈ d.start (directoryOf output) ∨ n ∈ steps (directoryOf output)) :
    d.freshName ∉ m := by
  intro hfresh
  rcases hm _ hfresh with hn | hn
  · rw [start] at hn
    split at hn
    · cases hn
    · exact freshName_not_mem (isDirectory_iff.1 hworking) hn
  · obtain ⟨l, hl, hl'⟩ := hway _ hn (isPart_freshName d).2.2.1
    exact freshName_not_mem hl hl'

/-- A new working directory and then a new file in the directory of the output. -/
theorem prepared {d : Disk} {parent : Location} (faults faults' : List (Option OsError))
    (hd : d.Rooted) (hworking : d.isDirectory d.working = true)
    (hway : ∀ s ∈ steps (directoryOf output), s ≠ ".." → ∃ m, d.find? m = some .directory ∧ s ∈ m)
    (hparent : ({ d with faults := faults }.put (d.newIn d.temporary) .directory).locate
      (directoryOf output) = .ok parent) :
    let d₁ := { d with faults := faults }.put (d.newIn d.temporary) .directory
    Prepared d output (d.newIn d.temporary) (d₁.newIn parent)
      ({ d₁ with faults := faults' }.put (d₁.newIn parent) (.file (.bytes .empty) false)) := by
  intro d₁
  have hdirectory := d.newIn_ne_nil d.temporary
  have harchive := d₁.newIn_ne_nil parent
  have hmade : d₁.find? (d.newIn d.temporary) = some .directory :=
    find?_put_self hdirectory _ _
  have hsame : d.SameOutside (· = d.newIn d.temporary) d₁ :=
    (SameOutside.withFaults d faults).trans (.put (S := (· = d.newIn d.temporary)) rfl _ _)
  have hnew : ∀ l, d.newIn d.temporary <+: l → d.find? l = none := fun l =>
    find?_freshName d d.temporary
  have hnew' : ∀ l, d₁.newIn parent <+: l → d₁.find? l = none := fun l =>
    find?_freshName d₁ parent
  have hoff : ∀ m, (∀ n ∈ m, n ∈ d.start (directoryOf output) ∨ n ∈ steps (directoryOf output)) →
      ¬d.newIn d.temporary <+: m := fun m hm hp =>
    freshName_off_way hworking hway hm (hp.subset (by simp [newIn]))
  have hne : d.newIn d.temporary ≠ d₁.newIn parent := by
    intro heq
    rw [heq, hnew' _ (List.prefix_refl _)] at hmade
    cases hmade
  have hplace := (locate_eq_ok.1 hparent).2
  refine ⟨d.isProper_newIn hd.temporary,
    d₁.isProper_newIn ((hsame.rooted hd).isProper_of_locate hparent), ⟨hdirectory, harchive⟩, hnew,
    fun l hl => ?_, fun hp => ?_, ?_, ?_, hoff⟩
  · by_cases heq : l = d.newIn d.temporary
    · exact hnew l (heq ▸ List.prefix_refl _)
    · exact (hsame.find? l heq).symm.trans (hnew' l hl)
  · rcases List.prefix_concat_iff.1 hp with heq | hp
    · exact hne heq
    · refine hoff parent (fun n hn => ?_) hp
      rw [eq_of_follow hplace] at hn
      exact (mem_of_mem_foldl_walk hn).imp_right And.left
  · rw [isDirectory_iff, find?_put_of_ne hne]
    exact hmade
  · exact (hsame.mono fun _ => Or.inl).trans
      ((SameOutside.withFaults d₁ faults').trans (.put (.inr rfl) _ _))

theorem produce_cases (contexts : List Context) (h : batch.Contained) {d : Disk}
    (hd : d.Rooted) (hworking : d.isDirectory d.working = true)
    (hway : ∀ s ∈ steps (directoryOf output), s ≠ ".." → ∃ m, d.find? m = some .directory ∧ s ∈ m) :
    (∃ e d', (batch.produce contexts output).runOn d = (.error e, d') ∧
        d.SameOutside (fun _ => False) d') ∨
      ∃ entries skipped t d', (batch.produce contexts output).runOn d =
          (.ok ⟨entries.map (·.name), skipped⟩, d') ∧
        batch.Assembled 0 contexts entries skipped ∧ d.SameOutside (· = t) d' ∧
          d'.locate output = .ok t ∧ d'.content? t = some (.archive entries) := by
  obtain ⟨faults, ⟨e, hrun⟩ | ⟨r, d₁, hbody, hrun⟩⟩ := withTemporaryDirectory_cases
    (.io "create temporary working directory") (fun directory =>
      withTemporaryFile (directoryOf output)
        (.io ("create temporary archive in " ++ directoryOf output))
        (batch.deliver contexts output directory)) d
  · exact .inl ⟨_, _, hrun, .withFaults d faults⟩
  · obtain ⟨faults', ⟨e, hfile⟩ | ⟨parent, hparent, -, r', d₂, hdeliver, hfile⟩⟩ :=
      withTemporaryFile_cases (directoryOf output)
        (.io ("create temporary archive in " ++ directoryOf output))
        (batch.deliver contexts output (pathOf (d.newIn d.temporary)))
        ({ d with faults := faults }.put (d.newIn d.temporary) .directory)
    · cases hbody.symm.trans hfile
      refine .inl ⟨_, _, hrun, rfl, rfl, fun l _ => ?_⟩
      rw [find?_remove (d.newIn_ne_nil _)]
      split
      · rename_i hl
        exact (find?_freshName d d.temporary hl).symm
      · rename_i hl
        exact find?_put_of_ne (ne_of_not_under hl) _ _
    · have hprepared := prepared faults faults' hd hworking hway hparent
      rcases deliver_cases contexts output h
        (hprepared.same.rooted hd) hprepared.isProper_directory hprepared.isProper_archive
        fun hbelow => hprepared.apart hbelow.1 with
        ⟨e, d₃, hfailed, hfill⟩ | ⟨entries, skipped, t, d₃, d₄, hassembled, hfill, hcontent, ht,
          hdt, hends, rfl, hdone⟩
      · cases hdeliver.symm.trans hfailed
        cases hbody.symm.trans hfile
        exact .inl ⟨e, _, hrun, hprepared.sameOutside_cleared hfill⟩
      · cases hdeliver.symm.trans hdone
        cases hbody.symm.trans hfile
        obtain ⟨hsame, hlocate, hentries⟩ := hprepared.delivered hfill ht hends hcontent hdt
        exact .inr ⟨entries, skipped, t, _, hrun, hassembled, hsame, hlocate, hentries⟩

/-- At a location there is what was there before, or a new directory on the way of a path. -/
def KeptAt (path : String) (d d' : Disk) (l : Location) : Prop :=
  d'.find? l = d.find? l ∨ d.find? l = none ∧ d'.find? l = some .directory ∧
    ∃ ts, ts <+: steps path ∧ l = ts.foldl walk (d.start path)

/-- The path leads to a directory that is there. -/
def HasDirectory (d : Disk) (path : String) : Prop :=
  ∃ l, d.locate path = .ok l ∧ d.isDirectory l = true

theorem KeptAt.of_eq {path : String} {d d₁ d' : Disk} {l : Location} (h : KeptAt path d d₁ l)
    (heq : d'.find? l = d₁.find? l) : KeptAt path d d' l := by
  rwa [KeptAt, heq]

/-- If a batch fails, wherever it does, everything is as it was, but for directories that are made
on the way to the output; if the directory of the output was there, nothing at all has changed. If
it succeeds, the complete archive is at the output, and all else is as it was. -/
theorem write_atomic {d : Disk} (h : batch.Contained) (hd : d.Rooted)
    (hworking : d.isDirectory d.working = true) (contexts : List Context) (output : String) :
    (∃ e d', (batch.write contexts output).runOn d = (.error e, d') ∧
        (∀ l, KeptAt (directoryOf output) d d' l) ∧
        (HasDirectory d (directoryOf output) →
          (∀ l, d'.find? l = d.find? l) ∧ d'.fileAt? output = d.fileAt? output)) ∨
      ∃ entries skipped t d', (batch.write contexts output).runOn d =
          (.ok ⟨entries.map (·.name), skipped⟩, d') ∧
        batch.Assembled 0 contexts entries skipped ∧
          d'.locate output = .ok t ∧ d'.content? t = some (.archive entries) ∧
            ∀ l, l ≠ t → KeptAt (directoryOf output) d d' l := by
  rw [write_eq]
  obtain ⟨faults, ⟨e, hmake⟩ | ⟨d₁, hsteps, hmake⟩⟩ := makeDirectories_cases (directoryOf output) d
  · exact .inl ⟨_, _, Task.runOn_bind_of_error (Task.runOn_orError_of_error _ hmake),
      fun _ => .inl rfl, fun _ => ⟨fun _ => rfl, fileAt?_congr rfl fun _ => rfl⟩⟩
  · obtain ⟨hw, htemporary, -⟩ := makeSteps_fields hsteps
    have hkept : ∀ l, KeptAt (directoryOf output) d d₁ l :=
      fun l => (find?_of_makeSteps hsteps l :)
    have hrooted : d₁.Rooted := ⟨hw ▸ hd.working, htemporary ▸ hd.temporary⟩
    have hworking₁ : d₁.isDirectory d₁.working = true := by
      rw [hw]
      exact isDirectory_of_makeSteps hsteps hworking
    have hthere : HasDirectory d (directoryOf output) → ∀ l, d₁.find? l = d.find? l := by
      rintro ⟨l, hl, hdirectory⟩
      have hfollow : { d with faults := faults }.follow (d.start (directoryOf output))
          (steps (directoryOf output)) = .ok l :=
        (follow_withFaults ..).trans (locate_eq_ok.1 hl).2
      cases hsteps.symm.trans (makeSteps_of_follow hfollow hdirectory)
      exact fun _ => rfl
    rcases produce_cases contexts h hrooted hworking₁
      (fun s hs hup => exists_of_makeSteps hsteps hs hup) with
      ⟨e, d', hrun, hsame⟩ | ⟨entries, skipped, t, d', hrun, hassembled, hsame, hlocate, hcontent⟩
    · have hfind : ∀ l, d'.find? l = d₁.find? l := fun l => hsame.find? l not_false
      refine .inl ⟨e, d', (Task.runOn_bind_of_ok (Task.runOn_orError_of_ok _ hmake)).trans hrun,
        fun l => (hkept l).of_eq (hfind l), fun hdirectory => ?_⟩
      have heq : ∀ l, d'.find? l = d.find? l := fun l => (hfind l).trans (hthere hdirectory l)
      exact ⟨heq, fileAt?_congr (hsame.working.trans hw) heq⟩
    · exact .inr ⟨entries, skipped, t, d',
        (Task.runOn_bind_of_ok (Task.runOn_orError_of_ok _ hmake)).trans hrun, hassembled, hlocate,
        hcontent, fun l hl => (hkept l).of_eq (hsame.find? l hl)⟩

/-- A disk with an archive from before. -/
def desk : Disk where
  items := [(["tmp"], .directory), (["home"], .directory),
    (["home", "letters.zip"], .file (.ofText "old") false)]
  working := ["home"]
  temporary := ["tmp"]

def unconverted : Batch where
  engine := ⟨.builtin, .html⟩
  template := ⟨[], none, .element "p" [] [.text "Dear \x7bname\x7d"]⟩
  converter := some (.office (fun _ _ => throw .notFound) "soffice" "pdf")

theorem unconverted_write : ∃ e d', (unconverted.write [.empty] "letters.zip").runOn desk =
    (.error e, d') ∧ d'.fileAt? "letters.zip" = some (.ofText "old") := by
  have hcontained : unconverted.Contained := by
    rintro c ⟨⟩
    exact ⟨Converter.contained_office (fun _ _ _ _ _ => .throw _) _ _, by decide⟩
  have hrooted : desk.Rooted := ⟨by decide +kernel, by decide +kernel⟩
  have hfails : ((unconverted.write [.empty] "letters.zip").runOn desk).1.isOk = false := by
    decide +kernel
  rcases write_atomic hcontained hrooted rfl [.empty] "letters.zip" with
    ⟨e, d', hrun, -, hsame⟩ | ⟨entries, skipped, t, d', hrun, -⟩
  · have hdot : directoryOf "letters.zip" = "." := by decide +kernel
    have hdirectory : HasDirectory desk (directoryOf "letters.zip") := by
      rw [hdot]
      exact ⟨["home"], rfl, rfl⟩
    exact ⟨e, d', hrun, (hsame hdirectory).2⟩
  · rw [hrun] at hfails
    cases hfails

end FormLetter.Batch
