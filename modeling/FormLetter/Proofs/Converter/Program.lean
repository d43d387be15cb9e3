import FormLetter.Proofs.Converter.Computes

/-!
# Programs that write files

A `Program` does what it likes, but all that it leaves are files in its output directory and how it
ended. The office converter is faithful to it (`Converter.Faithful`) if it succeeds exactly with
what the program wrote. There is one case where it is not: the document itself stands where a
program that converts to `docx` is to write, and is taken for its output if it writes nothing there
(`faithful_convert_iff`).
-/

namespace FormLetter

open FormLetter.Disk FormLetter.Text

/-- The files that a program leaves in its output directory, and how it ended. -/
structure Performance where
  files : List (String × Content)
  outcome : Outcome
  isPart : ∀ file ∈ files, IsPart file.1

/-- What a program wrote under a name. -/
def Performance.written (p : Performance) (name : String) : Option Content := p.files.lookup name

/-- A program, with arguments and a disk that it may read. It may also not start. -/
abbrev Program := List String → Disk → Except OsError Performance

namespace Disk

/-- The disk with more files in a directory. Of two with one name the first counts. -/
def addFiles (d : Disk) (directory : Location) : List (String × Content) → Disk
  | [] => d
  | (name, content) :: files =>
    (d.addFiles directory files).put (directory ++ [name]) (.file content false)

variable {d : Disk} {directory : Location} {files : List (String × Content)}

theorem find?_addFiles (d : Disk) (directory : Location) (files : List (String × Content))
    (name : String) : (d.addFiles directory files).find? (directory ++ [name]) =
      match files.lookup name with
      | some content => some (.file content false)
      | none => d.find? (directory ++ [name]) := by
  induction files with
  | nil => rfl
  | cons file files ih =>
    obtain ⟨first, content⟩ := file
    rw [addFiles, find?_put (by simp), ih, List.lookup_cons]
    by_cases h : name = first
    · simp [h]
    · simp [h, beq_eq_false_iff_ne.2 h]

theorem sameOutside_addFiles (d : Disk) (directory : Location) (files : List (String × Content)) :
    d.SameOutside (Below directory) (d.addFiles directory files) := by
  induction files with
  | nil => exact .refl d
  | cons file files ih => exact ih.trans (.put (below_concat directory file.1) _ _)

theorem faults_addFiles (d : Disk) (directory : Location) (files : List (String × Content)) :
    (d.addFiles directory files).faults = d.faults := by
  induction files with
  | nil => rfl
  | cons file files ih => exact ih

end Disk

/-- A program as it is run: its output directory is its last argument. -/
def Program.run (program : Program) : Runner := fun _ arguments d =>
  match program arguments d with
  | .error e => (.error e, d)
  | .ok p =>
    match d.locate (arguments.getLastD "") with
    | .error e => (.error e, d)
    | .ok directory => (.ok p.outcome, d.addFiles directory p.files)

namespace Converter

theorem exportedName_eq_importedName_iff {format : String} :
    exportedName format = importedName ↔ format = "docx" := by
  have himported : importedName = documentName ++ "." ++ "docx" := by decide
  rw [himported, exportedName, String.append_right_inj]

theorem not_isPart_exportedName {format : String} (h : '/' ∈ format.toList) :
    ¬IsPart (exportedName format) := by
  intro hpart
  refine hpart.2.2.2 ?_
  simp [exportedName, h]

/-- The document at the path that a program is to write to: what it wrote or, if that is the path of
the document that it was given, this document. -/
def exported? (format : String) (content : Content) (files : List (String × Content)) :
    Option Content :=
  (files.lookup (exportedName format)).or (if format = "docx" then some content else none)

theorem exported?_of_slash {format : String} (h : '/' ∈ format.toList) (content : Content)
    {files : List (String × Content)} (hfiles : ∀ file ∈ files, IsPart file.1) :
    exported? format content files = none := by
  have hformat : format ≠ "docx" := by
    rintro rfl
    revert h
    decide
  have hwritten : files.lookup (exportedName format) = none := by
    refine List.lookup_eq_none_iff.2 fun file hfile => ?_
    rw [bne_iff_ne]
    intro heq
    exact not_isPart_exportedName h (heq ▸ hfiles file hfile)
  rw [exported?, hwritten, if_neg hformat]
  rfl

end Converter

open Converter

namespace Disk

variable {d : Disk} {l : Location}

/-- A path that goes on behind a name leads nowhere, unless this is the name of a directory. -/
theorem isThere_eq_false {path name : String} {rest : List String}
    (habsolute : isAbsolute path = true) (hsteps : steps path = l ++ name :: rest)
    (hup : ".." ∉ l ++ [name]) (hfile : d.isDirectory (l ++ [name]) = false)
    (hend : rest = [] → endsInDirectory path = true) : isThere path d = false := by
  rw [List.mem_append, not_or, List.mem_singleton] at hup
  rw [isThere]
  cases ht : d.locate path with
  | error e => rfl
  | ok t =>
    have hfollow := (locate_eq_ok.1 ht).2
    rw [start_of_isAbsolute habsolute, hsteps, follow_append] at hfollow
    obtain ⟨m, hm, hfollow⟩ := hfollow
    obtain rfl : m = l := by rw [eq_of_follow hm, foldl_walk hup.1, List.nil_append]
    have hrest := (follow_cons_eq_ok.1 hfollow).2
    rw [walk, if_neg (Ne.symm hup.2)] at hrest
    cases rest with
    | nil =>
      cases hrest
      simp only [hend rfl, ↓reduceIte, hfile]
    | cons step rest =>
      rw [(follow_cons_eq_ok.1 hrest).1] at hfile
      cases hfile

/-- Where a format has a slash, the path for a converted document leads nowhere. -/
theorem isThere_exported_of_slash {format : String} (h : '/' ∈ format.toList) (hl : IsProper l)
    (hfile : ∀ name, d.isDirectory (l ++ [name]) = false) :
    isThere (join (pathOf l) (exportedName format)) d = false := by
  obtain ⟨front, last, hformat, hlast, -, hfront⟩ := exists_eq_append format.toList
  obtain ⟨before, rfl⟩ : ∃ before, front = before ++ ['/'] := by
    refine hfront.resolve_left ?_
    rintro rfl
    rw [hformat, List.nil_append] at h
    exact hlast h
  have hdocument : '/' ∉ "document.".toList := by decide
  obtain ⟨part, parts, -, hparts⟩ := exists_slashParts_append hdocument before
  have hchars : (exportedName format).toList =
      ("document.".toList ++ before) ++ '/' :: last := by
    simp [exportedName, documentName, hformat]
  -- the first step starts as the name of the document does, and so it does not lead up
  have hname : ∀ s : String, s.toList.length ≤ 2 →
      String.ofList ("document.".toList ++ part) ≠ s := by
    rintro s hs rfl
    rw [String.toList_ofList, List.length_append] at hs
    have : "document.".toList.length = 9 := by decide
    omega
  have hsteps : ∃ rest, steps (exportedName format) =
      String.ofList ("document.".toList ++ part) :: (rest ++ stepsOf last) := by
    rw [steps_eq, hchars, stepsOf_append, stepsOf, hparts, List.map_cons, List.filter_cons_of_pos]
    · exact ⟨_, rfl⟩
    · rw [Bool.and_eq_true]
      exact ⟨decide_eq_true (hname "" (by decide)), decide_eq_true (hname "." (by decide))⟩
  obtain ⟨rest, hsteps⟩ := hsteps
  refine isThere_eq_false (isAbsolute_join (isAbsolute_pathOf l) _)
    (by rw [steps_join_pathOf hl, hsteps]) ?_ (hfile _) fun hnil => ?_
  · rw [List.mem_append, List.mem_singleton, not_or]
    exact ⟨fun hm => (hl _ hm).2.2.1 rfl, (hname ".." (by decide)).symm⟩
  · have hpath : (join (pathOf l) (exportedName format)).toList =
        ((pathOf l).toList ++ '/' :: ("document.".toList ++ before) ++ ['/']) ++ last := by
      simp [join, hchars]
    have hdot := (List.append_eq_nil_iff.1 hnil).2
    rw [stepsOf_of_not_mem hlast, List.filter_eq_nil_iff] at hdot
    have hdot := hdot _ (List.mem_singleton_self _)
    rw [endsInDirectory, lastPart_eq hpath hlast (.inr ⟨_, rfl⟩)]
    simp only [ne_eq, Bool.and_eq_true, decide_eq_true_eq, Decidable.not_and_iff_not_or_not,
      Decidable.not_not] at hdot
    rcases hdot with hdot | hdot <;> simp [hdot]

end Disk

/-! ## The end of a run -/

variable {d : Disk} {directory : Location} {content : Content} {binary format : String}

theorem Runner.Start.end_addFiles (h : Runner.Start d directory content)
    (files : List (String × Content)) (format : String) :
    Runner.End d (d.addFiles directory files) directory format
      (exported? format content files) where
  same := (sameOutside_addFiles d directory files).mono fun _ => And.left
  faults := faults_addFiles d directory files
  isDirectory := by
    have hsame := (sameOutside_addFiles d directory files).find? directory fun h => h.2 rfl
    rw [isDirectory_congr hsame]
    exact h.reaches.isDirectory
  exported := by
    have hfind := find?_addFiles d directory files (exportedName format)
    rw [exported?]
    cases hwritten : files.lookup (exportedName format) with
    | some out =>
      rw [hwritten] at hfind
      exact content?_eq_some_iff.2 ⟨false, hfind⟩
    | none =>
      rw [hwritten] at hfind
      by_cases hformat : format = "docx"
      · rw [exportedName_eq_importedName_iff.2 hformat] at hfind ⊢
        rw [if_pos hformat]
        exact (content?_congr hfind).trans h.imported
      · rw [if_neg hformat]
        refine hfind.trans (h.alone _ (below_concat ..) fun heq => hformat ?_)
        have hname := List.singleton_inj.1 (List.append_inj_right heq rfl)
        exact exportedName_eq_importedName_iff.1 hname

/-- Whether there is a document at the path that a program is to write to, whatever the format. -/
theorem Runner.Start.isThere_exported {files : List (String × Content)}
    (h : Runner.Start d directory content) (hfiles : ∀ file ∈ files, IsPart file.1)
    (format : String) :
    isThere (join (pathOf directory) (exportedName format)) (d.addFiles directory files) =
      (exported? format content files).isSome := by
  by_cases hslash : '/' ∈ format.toList
  · rw [exported?_of_slash hslash content hfiles]
    refine isThere_exported_of_slash hslash h.isProper fun name => ?_
    have hfind := find?_addFiles d directory files name
    cases hwritten : files.lookup name with
    | some out =>
      rw [hwritten] at hfind
      rw [Disk.isDirectory, hfind]
    | none =>
      rw [hwritten] at hfind
      rw [isDirectory_congr hfind]
      exact h.isDirectory_concat name
  · exact h.isThere_of_end (h.end_addFiles files format) hslash

def filesOf : Except OsError Performance → List (String × Content)
  | .ok p => p.files
  | .error _ => []

theorem isPart_of_mem_filesOf (performed : Except OsError Performance) :
    ∀ file ∈ filesOf performed, IsPart file.1 := by
  cases performed with
  | ok p => exact p.isPart
  | error e => exact fun _ h => by cases h

theorem Program.runOn_run (program : Program) (h : Runner.Start d directory content)
    (hne : directory ≠ []) (binary format imported : String) :
    (program.run binary (officeArguments format imported (pathOf directory))).runOn d =
      ((program (officeArguments format imported (pathOf directory)) d).map (·.outcome),
        d.addFiles directory
          (filesOf (program (officeArguments format imported (pathOf directory)) d))) := by
  obtain ⟨parent, name, rfl⟩ : ∃ parent name, directory = parent ++ [name] :=
    ⟨_, _, (List.dropLast_concat_getLast hne).symm⟩
  have hlocate : d.locate (pathOf (parent ++ [name])) = .ok (parent ++ [name]) :=
    (h.reaches.of_prefix (List.prefix_append ..)).locate_pathOf_concat h.isProper
  have hlast : (officeArguments format imported (pathOf (parent ++ [name]))).getLastD "" =
      pathOf (parent ++ [name]) := rfl
  simp only [Task.runOn, Program.run, ExceptT.run, hlast, hlocate]
  cases program (officeArguments format imported (pathOf (parent ++ [name]))) d with
  | ok p => rfl
  | error e => rfl

def Disk.withDocument (d : Disk) (content : Content) : Disk :=
  d.withNewDirectory.put (d.newIn d.temporary ++ [importedName]) (.file content false)

/-- What a program does when it is to convert a document. -/
def Program.onDocument (program : Program) (format : String) (d : Disk) (content : Content) :
    Except OsError Performance :=
  let directory := pathOf (d.newIn d.temporary)
  program (officeArguments format (join directory importedName) directory) (d.withDocument content)

/-- A conversion from `s` to `t` that succeeds exactly with what the program wrote, and says
otherwise why not. Where it fails it changes nothing. -/
structure Converter.Faithful (binary format : String) (performed : Except OsError Performance)
    (d d' : Disk) (s t : Location) (r : Except ConvertError Unit) : Prop where
  ok_iff : r = .ok () ↔ ∃ p out, performed = .ok p ∧ p.outcome.status = some 0 ∧
    p.written (exportedName format) = some out
  target : r = .ok () → ∀ p, performed = .ok p → d'.content? t = p.written (exportedName format)
  absent : ∀ e, performed = .error e → r = .error (.io ("run " ++ binary) e)
  failed : ∀ p, performed = .ok p → p.outcome.status ≠ some 0 → r = .error
    (.failed p.outcome.status (String.ofList (trim (Utf8.decode p.outcome.errors).toList)))
  missing : ∀ p, performed = .ok p → p.outcome.status = some 0 →
    p.written (exportedName format) = none →
      r = .error (.missingOutput (join (pathOf (d.newIn d.temporary)) (exportedName format)))
  kept : ∀ e, r = .error e → ∀ l, d'.find? l = d.find? l
  source : s ≠ t → d'.find? s = d.find? s

/-- The program is to write a `docx` document, succeeds, and writes none. -/
def Converter.LeavesDocument (format : String) (performed : Except OsError Performance) : Prop :=
  format = "docx" ∧
    ∃ p, performed = .ok p ∧ p.outcome.status = some 0 ∧ p.written importedName = none

namespace Converter

variable {performed : Except OsError Performance} {d' : Disk} {s t : Location}

theorem exported?_eq_written {p : Performance} (h : ¬LeavesDocument format (.ok p))
    (hstatus : p.outcome.status = some 0) (content : Content) :
    exported? format content p.files = p.written (exportedName format) := by
  rw [exported?, Performance.written]
  cases hwritten : p.files.lookup (exportedName format) with
  | some out => rfl
  | none =>
    rw [if_neg]
    · rfl
    · intro hformat
      refine h ⟨hformat, p, rfl, hstatus, ?_⟩
      rwa [← exportedName_eq_importedName_iff.2 hformat]

theorem exported?_of_leavesDocument {p : Performance} (h : LeavesDocument format (.ok p))
    (content : Content) : exported? format content p.files = some content := by
  obtain ⟨hformat, p, ⟨⟩, -, hwritten⟩ := h
  rw [exported?, exportedName_eq_importedName_iff.2 hformat, if_pos hformat]
  exact congrArg (·.or (some content)) hwritten

section Verdicts

variable {p : Performance} {out : Content} {e : OsError}

theorem faithful_of_absent (hkept : ∀ l, d'.find? l = d.find? l) :
    Faithful binary format (.error e) d d' s t (.error (.io ("run " ++ binary) e)) := by
  refine ⟨⟨nofun, ?_⟩, nofun, ?_, nofun, nofun, fun _ _ => hkept, fun _ => hkept s⟩
  · rintro ⟨p, out, ⟨⟩, -⟩
  · rintro e' ⟨⟩
    rfl

theorem faithful_of_failed (hstatus : p.outcome.status ≠ some 0)
    (hkept : ∀ l, d'.find? l = d.find? l) : Faithful binary format (.ok p) d d' s t (.error
      (.failed p.outcome.status (String.ofList (trim (Utf8.decode p.outcome.errors).toList)))) := by
  refine ⟨⟨nofun, ?_⟩, nofun, nofun, ?_, ?_, fun _ _ => hkept, fun _ => hkept s⟩
  · rintro ⟨p, out, ⟨⟩, hzero, -⟩
    exact absurd hzero hstatus
  · rintro p ⟨⟩ -
    rfl
  · rintro p ⟨⟩ hzero
    exact absurd hzero hstatus

theorem faithful_of_missing (hstatus : p.outcome.status = some 0)
    (hwritten : p.written (exportedName format) = none) (hkept : ∀ l, d'.find? l = d.find? l) :
    Faithful binary format (.ok p) d d' s t
      (.error (.missingOutput (join (pathOf (d.newIn d.temporary)) (exportedName format)))) := by
  refine ⟨⟨nofun, ?_⟩, nofun, nofun, ?_, ?_, fun _ _ => hkept, fun _ => hkept s⟩
  · rintro ⟨p, out, ⟨⟩, -, hsome⟩
    rw [hwritten] at hsome
    cases hsome
  · rintro p ⟨⟩ hne
    exact absurd hstatus hne
  · rintro p ⟨⟩ - -
    rfl

theorem faithful_of_written (hstatus : p.outcome.status = some 0)
    (hwritten : p.written (exportedName format) = some out) (ht : d'.content? t = some out)
    (hs : s ≠ t → d'.find? s = d.find? s) : Faithful binary format (.ok p) d d' s t (.ok ()) := by
  refine ⟨⟨fun _ => ⟨p, out, rfl, hstatus, hwritten⟩, fun _ => rfl⟩, ?_, nofun, ?_, ?_, nofun, hs⟩
  · rintro - p ⟨⟩
    rw [hwritten, ht]
  · rintro p ⟨⟩ hne
    exact absurd hstatus hne
  · rintro p ⟨⟩ - hnone
    rw [hwritten] at hnone
    cases hnone

end Verdicts

/-- Where the document is not left to be taken for output, what is made of a run is faithful. -/
theorem faithful_of_conclusion {r : Except ConvertError Content}
    (hr : conclusion binary format (pathOf (d.newIn d.temporary)) (performed.map (·.outcome))
      (exported? format content (filesOf performed)) = r)
    (h : ¬LeavesDocument format performed)
    (ht : ∀ out, r = .ok out → d'.content? t = some out)
    (hkept : ∀ e, r = .error e → ∀ l, d'.find? l = d.find? l)
    (hs : s ≠ t → d'.find? s = d.find? s) :
    Faithful binary format performed d d' s t (r.map fun _ => ()) := by
  cases performed with
  | error e =>
    cases hr
    exact faithful_of_absent (hkept _ rfl)
  | ok p =>
    by_cases hstatus : p.outcome.status = some 0
    · have hout := (conclusion_of_ended hstatus).symm.trans hr
      rw [filesOf, exported?_eq_written h hstatus] at hout
      cases hwritten : p.written (exportedName format) with
      | none =>
        rw [hwritten] at hout
        cases hout
        exact faithful_of_missing hstatus hwritten (hkept _ rfl)
      | some out =>
        rw [hwritten] at hout
        cases hout
        exact faithful_of_written hstatus hwritten (ht out rfl) hs
    · have hout := (conclusion_of_failed hstatus).symm.trans hr
      cases hout
      exact faithful_of_failed hstatus (hkept _ rfl)

/-- Where the document is taken for output, the conversion succeeds with the document as it was. -/
theorem conclusion_of_leavesDocument (directory : String) (h : LeavesDocument format performed) :
    conclusion binary format directory (performed.map (·.outcome))
      (exported? format content (filesOf performed)) = .ok content := by
  obtain ⟨hformat, p, rfl, hstatus, hwritten⟩ := h
  refine (conclusion_of_ended hstatus).trans ?_
  rw [filesOf, exported?_of_leavesDocument ⟨hformat, p, rfl, hstatus, hwritten⟩]
  rfl

theorem runOn_copy_withDocument {source : String} (hd : d.Sound) (hs : d.Accepts source s)
    (hcontent : d.content? s = some content) :
    (copy source (join (pathOf (d.newIn d.temporary)) importedName)).runOn d.withNewDirectory =
      (.ok (), d.withDocument content) := by
  have hnew := not_under_new_of_content? hcontent
  have hsource : d.withNewDirectory.content? s = some content := by
    rwa [content?_congr (d.find?_withNewDirectory hnew)]
  have hread := runOn_read hd.withNewDirectory.faults (hs.withNewDirectory hnew) hsource
  exact (Task.runOn_bind_of_ok (Task.runOn_orError_of_ok _ hread)).trans
    (runOn_write_of_none hd.withNewDirectory.faults (hd.accepts_new isPart_importedName)
      (find?_below_new (below_concat ..)) content)

/-- The run of a conversion: what it comes to, and what it changes. -/
theorem exists_runOn_convert_program (program : Program) (binary format : String)
    {source target : String} (hd : d.Sound) (hs : d.Accepts source s)
    (hcontent : d.content? s = some content) (ht : d.Accepts target t)
    (hne : t ≠ d.newIn d.temporary) :
    ∃ r d', conclusion binary format (pathOf (d.newIn d.temporary))
        ((program.onDocument format d content).map (·.outcome))
        (exported? format content (filesOf (program.onDocument format d content))) = r ∧
      ((office program.run binary format).convert source target).runOn d =
        (r.map fun _ => (), d') ∧
      (∀ out, r = .ok out → d'.content? t = some out) ∧
      (∀ e, r = .error e → ∀ l, d'.find? l = d.find? l) ∧
      ∀ l, l ≠ t → d'.find? l = d.find? l := by
  have hnew := ht.not_under_new hne
  obtain ⟨d₁, hcopy, hstart, honly⟩ := exists_start hd hs hcontent
  obtain rfl : d.withDocument content = d₁ :=
    (Prod.mk.inj ((runOn_copy_withDocument hd hs hcontent).symm.trans hcopy)).2
  have hrun := program.runOn_run hstart (d.newIn_ne_nil _) binary format
    (join (pathOf (d.newIn d.temporary)) importedName)
  change _ = ((program.onDocument format d content).map (·.outcome),
    (d.withDocument content).addFiles (d.newIn d.temporary)
      (filesOf (program.onDocument format d content))) at hrun
  have hfiles := isPart_of_mem_filesOf (program.onDocument format d content)
  generalize program.onDocument format d content = performed at hrun hfiles ⊢
  have hend := hstart.end_addFiles (filesOf performed) format
  have hslash : (exported? format content (filesOf performed)).isSome = true →
      '/' ∉ format.toList := by
    intro hsome hslash
    rw [exported?_of_slash hslash content hfiles] at hsome
    cases hsome
  obtain ⟨d₃, hfinish, honly₃, hout⟩ := exists_runOn_finish_of_end hstart hrun hend
    (hstart.isThere_exported hfiles format) hslash (honly.accepts (ht.withNewDirectory hnew)) hnew
  refine ⟨_, d₃.remove (d.newIn d.temporary), rfl, ?_, fun out hr => ?_, fun e hr => ?_, ?_⟩
  · rw [convert_office]
    exact runOn_withTemporaryDirectory hd.faults
      ((Task.runOn_bind_of_ok (Task.runOn_orError_of_ok _ hcopy)).trans hfinish)
  · rw [hr] at hout
    rw [content?_congr (d := d₃)]
    · exact hout
    · rw [find?_remove (d.newIn_ne_nil _), if_neg hnew]
  · rw [hr] at hout
    change d₃ = _ at hout
    have hsame := filesOnly_of_end honly hend (.refl (S := fun _ => False) _)
    rw [hout]
    exact fun l => hsame.find? l not_false
  · exact (filesOnly_of_end honly hend honly₃).find?

/-- A conversion is faithful to the program, whatever this is and does, unless it takes the document
for output that the program has not written. Nothing but the target is ever changed. -/
theorem faithful_convert_iff (program : Program) (binary format : String) {source target : String}
    (hd : d.Sound) (hs : d.Accepts source s) (hcontent : d.content? s = some content)
    (ht : d.Accepts target t) (hne : t ≠ d.newIn d.temporary) :
    ∃ r d', ((office program.run binary format).convert source target).runOn d = (r, d') ∧
      (∀ l, l ≠ t → d'.find? l = d.find? l) ∧
      (Faithful binary format (program.onDocument format d content) d d' s t r ↔
        ¬LeavesDocument format (program.onDocument format d content)) ∧
      (LeavesDocument format (program.onDocument format d content) →
        r = .ok () ∧ d'.content? t = some content) := by
  obtain ⟨r, d', hr, hrun, hout, hkept, hsame⟩ :=
    exists_runOn_convert_program program binary format hd hs hcontent ht hne
  have hleft : LeavesDocument format (program.onDocument format d content) → r = .ok content :=
    fun h => hr.symm.trans (conclusion_of_leavesDocument _ h)
  refine ⟨_, d', hrun, hsame, ⟨fun hfaithful h => ?_, fun h => ?_⟩, fun h => ?_⟩
  · obtain ⟨hformat, p, hp, -, hnone⟩ := id h
    rw [hleft h] at hfaithful
    obtain ⟨p', out, hp', -, hwritten⟩ := hfaithful.ok_iff.1 rfl
    obtain rfl := Except.ok.inj (hp.symm.trans hp')
    rw [exportedName_eq_importedName_iff.2 hformat, hnone] at hwritten
    cases hwritten
  · exact faithful_of_conclusion hr h hout hkept fun hst => hsame s hst
  · rw [hleft h]
    exact ⟨rfl, hout content (hleft h)⟩

/-! ## A cabinet -/

/-- A disk with a letter and what was printed of it before. -/
def cabinet : Disk where
  items := [(["tmp"], .directory), (["home"], .directory),
    (["home", "letter.docx"], .file (.ofText "Dear Ann") false),
    (["home", "letter.pdf"], .file (.ofText "old") false)]
  working := ["home"]
  temporary := ["tmp"]

theorem sound_cabinet : cabinet.Sound :=
  ⟨⟨by decide +kernel, by decide +kernel⟩, rfl, by decide +kernel, by decide +kernel⟩

theorem accepts_letter : cabinet.Accepts "letter.docx" ["home", "letter.docx"] :=
  ⟨rfl, by decide +kernel, by decide +kernel⟩

theorem accepts_printed : cabinet.Accepts "letter.pdf" ["home", "letter.pdf"] :=
  ⟨rfl, by decide +kernel, by decide +kernel⟩

theorem content?_letter :
    cabinet.content? ["home", "letter.docx"] = some (.ofText "Dear Ann") := rfl

theorem printed_ne_newIn : ["home", "letter.pdf"] ≠ cabinet.newIn cabinet.temporary := by
  decide +kernel

def reviser : Program := fun _ _ =>
  .ok ⟨[("document.docx", .ofText "Dear Ann,")], ⟨some 0, .empty⟩, by decide⟩

theorem reviser_convert :
    ∃ d', ((office reviser.run "soffice" "docx").convert "letter.docx" "letter.pdf").runOn cabinet =
      (.ok (), d') ∧ d'.content? ["home", "letter.pdf"] = some (.ofText "Dear Ann,") ∧
        d'.find? ["home", "letter.docx"] = some (.file (.ofText "Dear Ann") false) := by
  obtain ⟨r, d', hrun, hsame, hiff, -⟩ := faithful_convert_iff reviser "soffice" "docx"
    sound_cabinet accepts_letter content?_letter accepts_printed printed_ne_newIn
  have hfaithful := hiff.2 fun h => by
    obtain ⟨-, p, ⟨⟩, -, hnone⟩ := h
    cases hnone
  obtain rfl := hfaithful.ok_iff.2 ⟨_, .ofText "Dear Ann,", rfl, rfl, rfl⟩
  exact ⟨d', hrun, hfaithful.target rfl _ rfl, (hsame _ (by decide)).trans rfl⟩

/-- A program that does nothing, and succeeds. -/
def idler : Program := fun _ _ => .ok ⟨[], ⟨some 0, .empty⟩, nofun⟩

/-- The letter itself is taken for what the program made of it. -/
theorem idler_not_faithful :
    ∃ r d', ((office idler.run "soffice" "docx").convert "letter.docx" "letter.pdf").runOn cabinet =
        (r, d') ∧
      r = .ok () ∧ d'.content? ["home", "letter.pdf"] = some (.ofText "Dear Ann") ∧
      ¬Faithful "soffice" "docx" (idler.onDocument "docx" cabinet (.ofText "Dear Ann")) cabinet d'
        ["home", "letter.docx"] ["home", "letter.pdf"] r := by
  obtain ⟨r, d', hr, hrun, hout, -, -⟩ := exists_runOn_convert_program idler "soffice" "docx"
    sound_cabinet accepts_letter content?_letter accepts_printed printed_ne_newIn
  have hleft : LeavesDocument "docx" (idler.onDocument "docx" cabinet (.ofText "Dear Ann")) :=
    ⟨rfl, _, rfl, rfl, rfl⟩
  obtain rfl := (conclusion_of_leavesDocument _ hleft).symm.trans hr
  refine ⟨_, d', hrun, rfl, hout _ rfl, fun hfaithful => ?_⟩
  obtain ⟨p, out, ⟨⟩, -, hwritten⟩ := hfaithful.ok_iff.1 rfl
  cases hwritten

end Converter

end FormLetter
