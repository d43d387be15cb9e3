import FormLetter.Batch.Basic
import FormLetter.Proofs.Converter.Contained

/-!
# How an archive is filled

The documents of a batch are made in its working directory (`changesOnly_makeItem`) and added to
the file of the archive, so filling the archive changes nothing else (`changesOnly_addItems`). What
is in a filled archive is an entry with the content of the document of each context, or else the
document is left out and reported (`assembled_of_addItems`).
-/

namespace FormLetter

open FormLetter.Disk

variable {directory archive : Location}

theorem Package.changesOnly_save (p : Package) {part : String} (hdirectory : IsProper directory)
    (hpart : steps part ≠ [] ∧ ".." ∉ steps part) :
    (p.save (join (pathOf directory) part)).ChangesOnly (Below directory) := by
  have hwrite : ∀ parts, (Disk.write (join (pathOf directory) part) (.archive parts)).ChangesOnly
      (Below directory) := fun parts =>
    Task.changesOnly_write
      (fun d _ t ht => below_of_locate_join hdirectory hpart.2 hpart.1 ht) (.archive parts)
  rw [save]
  split
  · exact (hwrite _).orError _
  · exact .bind ((hwrite _).orError _) fun _ => .throw _

namespace Batch

variable {batch : Batch} {index : Nat} {ctx : Context} {contexts : List Context}
  {progress progress' : Progress} {path name : String} {d d' : Disk}

theorem not_mem_toDigits (n : Nat) : '/' ∉ Nat.toDigits 10 n := fun h =>
  absurd (Nat.isDigit_of_mem_toDigits (by decide) (by decide) h) (by decide)

theorem steps_entryName {extension : String} (h : ".." ∉ steps extension) (index : Nat) :
    steps (entryName index extension) ≠ [] ∧ ".." ∉ steps (entryName index extension) := by
  refine steps_append (c := 'd') ?_ (by decide) ?_ h
  · simp
  · simp [not_mem_toDigits]

theorem steps_converted {extension : String} (h : ".." ∉ steps extension) (index : Nat) :
    steps ("converted-" ++ entryName index extension) ≠ [] ∧
      ".." ∉ steps ("converted-" ++ entryName index extension) :=
  steps_append (c := 'c') (by decide) (by decide) (by decide) (steps_entryName h index).2

/-- The converter of the batch, if there is one, keeps to the directory of its target, and its
extension does not lead out of it. -/
def Contained (batch : Batch) : Prop :=
  ∀ c ∈ batch.converter, c.Contained ∧ ".." ∉ steps c.extension

theorem changesOnly_makeItem (h : batch.Contained) (hdirectory : IsProper directory) (index : Nat)
    (ctx : Context) :
    (batch.makeItem (pathOf directory) index ctx).ChangesOnly (Below directory) := by
  rw [makeItem]
  split
  · exact .throw _
  · have hextension : ".." ∉ steps documentExtension := by decide
    have hpart := steps_entryName hextension index
    refine .bind ((Package.changesOnly_save _ hdirectory hpart).orError _) fun _ => ?_
    split
    · exact .pure _
    · rename_i converter hconverter
      obtain ⟨hcontained, hup⟩ := h converter hconverter
      obtain ⟨hne, hup⟩ := steps_converted hup index
      exact .bind ((hcontained directory _ _ hdirectory hup hne).orError _) fun _ => .pure _

theorem exists_join_of_makeItem (h : batch.Contained) {directory : String}
    (hrun : (batch.makeItem directory index ctx).runOn d = (.ok (path, name), d')) :
    ∃ part, path = join directory part ∧ steps part ≠ [] ∧ ".." ∉ steps part := by
  rw [makeItem] at hrun
  split at hrun
  · cases hrun
  · obtain ⟨-, d₁, -, hrun⟩ := Task.runOn_bind_eq_ok.1 hrun
    split at hrun
    · cases hrun
      exact ⟨_, rfl, steps_entryName (by decide) index⟩
    · rename_i converter hconverter
      obtain ⟨-, d₂, -, hrun⟩ := Task.runOn_bind_eq_ok.1 hrun
      cases hrun
      exact ⟨_, rfl, steps_converted (h converter hconverter).2 index⟩

/-- The document of a context is made, with a name for its entry and a content. -/
def Made (batch : Batch) (index : Nat) (ctx : Context) (name : String) (content : Content) : Prop :=
  ∃ directory d d' path, (batch.makeItem directory index ctx).runOn d = (.ok (path, name), d') ∧
    d'.fileAt? path = some content

def Fails (batch : Batch) (index : Nat) (ctx : Context) (cause : ItemError) : Prop :=
  ∃ directory d d', (batch.makeItem directory index ctx).runOn d = (.error cause, d')

/-- The entries of an archive and what is left out: one of them for each of the contexts, the first
of which has this index, in their order. -/
inductive Assembled (batch : Batch) :
    Nat → List Context → List Content.Entry → List SkippedItem → Prop where
  | nil {index : Nat} : Assembled batch index [] [] []
  | made {index : Nat} {ctx : Context} {contexts : List Context} {name : String}
      {content : Content} {entries : List Content.Entry} {skipped : List SkippedItem} :
    batch.Made index ctx name content → Assembled batch (index + 1) contexts entries skipped →
    Assembled batch index (ctx :: contexts) (⟨name, .deflated, content⟩ :: entries) skipped
  | skipped {index : Nat} {ctx : Context} {contexts : List Context} {cause : ItemError}
      {entries : List Content.Entry} {skipped : List SkippedItem} :
    batch.policy = .skip → batch.Fails index ctx cause →
    Assembled batch (index + 1) contexts entries skipped →
    Assembled batch index (ctx :: contexts) entries (⟨index, cause.message⟩ :: skipped)

theorem changesOnly_writeEntries (harchive : IsProper archive) (entries : List Content.Entry) :
    (writeEntries archive entries).ChangesOnly (· = archive) :=
  Task.changesOnly_write (fun _ _ _ ht => eq_of_locate_pathOf harchive ht) _

theorem content?_of_writeEntries {entries : List Content.Entry} (harchive : IsProper archive)
    (hrun : (writeEntries archive entries).runOn d = (.ok (), d')) :
    d'.content? archive = some (.archive entries) := by
  obtain ⟨faults, ⟨e, h⟩ | ⟨t, executable, ht, hd, h⟩⟩ :=
    write_cases (pathOf archive) (.archive entries) d
  · cases h.symm.trans hrun
  · cases h.symm.trans hrun
    rw [eq_of_locate_pathOf harchive ht] at hd ⊢
    exact content?_eq_some_iff.2
      ⟨executable, find?_put_self (ne_nil_of_isDirectory_eq_false hd) _ _⟩

theorem changesOnly_addItem (harchive : IsProper archive) (progress : Progress)
    (path name : String) : (addItem archive progress path name).ChangesOnly (· = archive) :=
  .bind ((changesOnly_writeEntries harchive _).orError _) fun _ =>
    .bind ((Task.changesOnly_read path).orError _) fun _ =>
      .bind ((changesOnly_writeEntries harchive _).orError _) fun _ => .pure _

theorem addItem_eq_ok (harchive : IsProper archive)
    (hpath : ∀ t, d.locate path = .ok t → t ≠ archive)
    (hrun : (addItem archive progress path name).runOn d = (.ok progress', d')) :
    ∃ content, d.fileAt? path = some content ∧
      progress' = ⟨progress.entries ++ [⟨name, .deflated, content⟩],
        { progress.report with entries := progress.report.entries ++ [name] }⟩ := by
  obtain ⟨_, d₁, hwrite, hrun⟩ := Task.runOn_bind_eq_ok.1 hrun
  obtain ⟨content, d₂, hread, hrun⟩ := Task.runOn_bind_eq_ok.1 hrun
  obtain ⟨_, d₃, -, hrun⟩ := Task.runOn_bind_eq_ok.1 hrun
  rw [Task.runOn_orError_eq_ok] at hwrite hread
  cases hrun
  refine ⟨content, ?_, rfl⟩
  obtain ⟨faults, ⟨e, h⟩ | ⟨content', hfile, h⟩⟩ := read_cases path d₁
  · cases h.symm.trans hread
  · cases h.symm.trans hread
    refine fileAt?_of_write hwrite (fun t u ht hu => ?_) hfile
    rw [eq_of_locate_pathOf harchive ht]
    exact hpath u hu

/-- What filling an archive may change: the working directory and the file of the archive. -/
def Filling (directory archive l : Location) : Prop := Below directory l ∨ l = archive

theorem changesOnly_addItems (h : batch.Contained) (hdirectory : IsProper directory)
    (harchive : IsProper archive) (index : Nat) (progress : Progress) (contexts : List Context) :
    (batch.addItems (pathOf directory) archive index progress contexts).ChangesOnly
      (Filling directory archive) := by
  induction contexts generalizing index progress with
  | nil => exact .pure _
  | cons ctx contexts ih =>
    have hmake := (changesOnly_makeItem h hdirectory index ctx).mono
      fun l (hl : Below directory l) => (Or.inl hl : Filling directory archive l)
    have hadd := fun path name => (changesOnly_addItem harchive progress path name).mono
      fun l (hl : l = archive) => (Or.inr hl : Filling directory archive l)
    rw [addItems]
    refine .bind hmake.outcome fun r => ?_
    split
    · exact .bind (hadd _ _) fun progress => ih _ progress
    · split
      · exact .throw _
      · exact ih _ _

/-- A filled archive has an entry for each context, or the context is reported as left out. -/
theorem assembled_of_addItems (h : batch.Contained) (hd : d.Rooted)
    (hdirectory : IsProper directory) (harchive : IsProper archive)
    (hapart : ¬Below directory archive)
    (hrun : (batch.addItems (pathOf directory) archive index progress contexts).runOn d =
      (.ok progress', d')) :
    ∃ entries skipped, Assembled batch index contexts entries skipped ∧
      progress' = ⟨progress.entries ++ entries,
        ⟨progress.report.entries ++ entries.map (·.name), progress.report.skipped ++ skipped⟩⟩ := by
  induction contexts generalizing index progress d with
  | nil =>
    cases hrun
    exact ⟨[], [], .nil, by simp⟩
  | cons ctx contexts ih =>
    rw [addItems] at hrun
    obtain ⟨r, d₁, houtcome, hrun⟩ := Task.runOn_bind_eq_ok.1 hrun
    have hmake := Task.runOn_outcome_eq_ok.1 houtcome
    have hrooted := (changesOnly_makeItem h hdirectory index ctx).rooted hd hmake
    cases r with
    | ok item =>
      obtain ⟨path, name⟩ := item
      obtain ⟨progress₁, d₂, hadd, hrun⟩ := Task.runOn_bind_eq_ok.1 hrun
      obtain ⟨part, rfl, hne, hup⟩ := exists_join_of_makeItem h hmake
      have hpath : ∀ t, d₁.locate (join (pathOf directory) part) = .ok t → t ≠ archive := by
        rintro t ht rfl
        exact hapart (below_of_locate_join hdirectory hup hne ht)
      obtain ⟨content, hfile, rfl⟩ := addItem_eq_ok harchive hpath hadd
      have hrooted₂ := (changesOnly_addItem harchive progress _ name).rooted hrooted hadd
      obtain ⟨entries, skipped, hassembled, rfl⟩ := ih hrooted₂ hrun
      exact ⟨_, skipped, .made ⟨_, _, _, _, hmake, hfile⟩ hassembled, by simp⟩
    | error cause =>
      cases hpolicy : batch.policy with
      | abort =>
        rw [hpolicy] at hrun
        cases hrun
      | skip =>
        rw [hpolicy] at hrun
        obtain ⟨entries, skipped, hassembled, rfl⟩ := ih hrooted hrun
        exact ⟨entries, _, .skipped hpolicy ⟨_, _, _, hmake⟩ hassembled, by simp⟩

end Batch

end FormLetter
