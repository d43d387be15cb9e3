import FormLetter.Proofs.Disk.Task

/-!
# What tasks leave alone

Two disks may be the same outside of some locations (`Disk.SameOutside`). A task changes only some
locations (`Task.ChangesOnly`) if its parts do, and what it makes in a temporary directory does not
count (`ChangesOnly.withTemporaryDirectory`).
-/

namespace FormLetter

open FormLetter.Disk

namespace Disk

/-- The disks are the same outside of some locations, and so are the directories that they work
in. -/
structure SameOutside (S : Location → Prop) (d d' : Disk) : Prop where
  working : d'.working = d.working
  temporary : d'.temporary = d.temporary
  find? : ∀ l, ¬S l → d'.find? l = d.find? l

variable {S S' : Location → Prop} {d d' d'' : Disk} {l : Location}

namespace SameOutside

theorem refl (d : Disk) : d.SameOutside S d := ⟨rfl, rfl, fun _ _ => rfl⟩

theorem trans (h : d.SameOutside S d') (h' : d'.SameOutside S d'') : d.SameOutside S d'' :=
  ⟨h'.working.trans h.working, h'.temporary.trans h.temporary,
    fun l hl => (h'.find? l hl).trans (h.find? l hl)⟩

theorem mono (hS : ∀ l, S l → S' l) (h : d.SameOutside S d') : d.SameOutside S' d' :=
  ⟨h.working, h.temporary, fun l hl => h.find? l (mt (hS l) hl)⟩

theorem withFaults (d : Disk) (faults : List (Option OsError)) :
    d.SameOutside S { d with faults := faults } :=
  ⟨rfl, rfl, fun _ _ => rfl⟩

theorem put (hl : S l) (d : Disk) (item : Item) : d.SameOutside S (d.put l item) :=
  ⟨rfl, rfl, fun m hm => find?_put_of_ne (fun h : m = l => hm (h.symm ▸ hl)) d item⟩

theorem rooted (h : d.SameOutside S d') (hd : d.Rooted) : d'.Rooted :=
  ⟨h.working ▸ hd.working, h.temporary ▸ hd.temporary⟩

end SameOutside

theorem ne_of_not_under {l m : Location} (h : ¬l <+: m) : m ≠ l := by
  rintro rfl
  exact h (List.prefix_refl _)

def Below (directory l : Location) : Prop := directory <+: l ∧ l ≠ directory

theorem below_concat (directory : Location) (name : String) :
    Below directory (directory ++ [name]) :=
  ⟨List.prefix_append .., by simp⟩

end Disk

namespace Task

variable {ε ε' α β : Type} {S S' : Location → Prop}

/-- Wherever a task fails or succeeds, it has changed nothing outside of some locations. -/
def ChangesOnly (S : Location → Prop) (t : Task ε α) : Prop :=
  ∀ d : Disk, d.Rooted → d.SameOutside S (t.runOn d).2

namespace ChangesOnly

theorem sameOutside {t : Task ε α} (h : t.ChangesOnly S) {d d' : Disk} {r : Except ε α}
    (hd : d.Rooted) (hrun : t.runOn d = (r, d')) : d.SameOutside S d' := by
  have hsame := h d hd
  rwa [hrun] at hsame

theorem rooted {t : Task ε α} (h : t.ChangesOnly S) {d d' : Disk} {r : Except ε α}
    (hd : d.Rooted) (hrun : t.runOn d = (r, d')) : d'.Rooted :=
  (h.sameOutside hd hrun).rooted hd

theorem mono (hS : ∀ l, S l → S' l) {t : Task ε α} (h : t.ChangesOnly S) : t.ChangesOnly S' :=
  fun d hd => (h d hd).mono hS

theorem pure (a : α) : (Pure.pure a : Task ε α).ChangesOnly S := fun d _ => .refl d

theorem throw (e : ε) : (MonadExcept.throw e : Task ε α).ChangesOnly S := fun d _ => .refl d

theorem get : (MonadState.get : Task ε Disk).ChangesOnly S := fun d _ => .refl d

theorem bind {t : Task ε α} {f : α → Task ε β} (ht : t.ChangesOnly S)
    (hf : ∀ a, (f a).ChangesOnly S) : (t >>= f).ChangesOnly S := by
  intro d hd
  rcases runOn_bind_cases t f d with ⟨a, d', hrun, hbind⟩ | ⟨e, d', hrun, hbind⟩
  · rw [hbind]
    exact (ht.sameOutside hd hrun).trans (hf a d' (ht.rooted hd hrun))
  · rw [hbind]
    exact ht.sameOutside hd hrun

theorem ite {p : Prop} [Decidable p] {t u : Task ε α} (ht : t.ChangesOnly S)
    (hu : u.ChangesOnly S) : (if p then t else u).ChangesOnly S := by
  split
  · exact ht
  · exact hu

theorem orError {t : Task ε α} (h : t.ChangesOnly S) (f : ε → ε') : (t.orError f).ChangesOnly S :=
  h

theorem outcome {t : Task ε α} (h : t.ChangesOnly S) :
    (t.outcome : Task ε' (Except ε α)).ChangesOnly S :=
  h

end ChangesOnly

theorem changesOnly_read (path : String) : (Disk.read path).ChangesOnly S := by
  intro d _
  obtain ⟨faults, ⟨e, h⟩ | ⟨content, -, h⟩⟩ := read_cases path d
  · rw [h]
    exact .withFaults d faults
  · rw [h]
    exact .withFaults d faults

theorem changesOnly_write {path : String}
    (hS : ∀ d : Disk, d.Rooted → ∀ t, d.locate path = .ok t → S t) (content : Content) :
    (Disk.write path content).ChangesOnly S := by
  intro d hd
  obtain ⟨faults, ⟨e, h⟩ | ⟨t, executable, ht, -, h⟩⟩ := write_cases path content d
  · rw [h]
    exact .withFaults d faults
  · rw [h]
    exact (SameOutside.withFaults d faults).trans (.put (hS d hd t ht) _ _)

theorem changesOnly_copy {source target : String}
    (hS : ∀ d : Disk, d.Rooted → ∀ t, d.locate target = .ok t → S t) :
    (copy source target).ChangesOnly S :=
  .bind ((changesOnly_read source).orError _) fun content => changesOnly_write hS content

end Task

/-! ## Temporary directories and files -/

namespace Disk

/-- A new location in a directory. -/
def newIn (d : Disk) (parent : Location) : Location := parent ++ [d.freshName]

theorem newIn_ne_nil (d : Disk) (parent : Location) : d.newIn parent ≠ [] := by simp [newIn]

theorem isProper_newIn (d : Disk) {parent : Location} (h : IsProper parent) :
    IsProper (d.newIn parent) :=
  h.append (List.forall_mem_singleton.2 (isPart_freshName d))

theorem withTemporaryDirectory_cases {ε α : Type} (failed : OsError → ε)
    (body : String → Task ε α) (d : Disk) : ∃ faults,
    (∃ e, (withTemporaryDirectory failed body).runOn d =
        (.error (failed e), { d with faults := faults })) ∨
      ∃ r d', (body (pathOf (d.newIn d.temporary))).runOn
          ({ d with faults := faults }.put (d.newIn d.temporary) .directory) = (r, d') ∧
        (withTemporaryDirectory failed body).runOn d = (r, d'.remove (d.newIn d.temporary)) := by
  obtain ⟨faults, ⟨e, h⟩ | ⟨l, d₁, hf, h⟩⟩ := operation_cases
    (f := fun d => .ok (d.newIn d.temporary, d.put (d.newIn d.temporary) .directory)) rfl d
  · exact ⟨faults, .inl ⟨e, Task.runOn_bind_of_error (Task.runOn_orError_of_error failed h)⟩⟩
  · cases hf
    exact ⟨faults, .inr ⟨_, _, rfl, Task.runOn_bind_of_ok (Task.runOn_orError_of_ok failed h)⟩⟩

/-- A new empty file in a directory, and where it is. -/
def addFile (directory : String) (d : Disk) : Except OsError (Location × Disk) := do
  let parent ← d.locate directory
  match d.find? parent with
  | none => throw .notFound
  | some (.file ..) => throw .notDirectory
  | some .directory =>
    return (d.newIn parent, d.put (d.newIn parent) (.file (.bytes .empty) false))

theorem withTemporaryFile_eq {ε α : Type} (directory : String) (failed : OsError → ε)
    (body : Location → Task ε α) :
    withTemporaryFile directory failed body =
      ((operation (addFile directory)).orError failed >>= fun location =>
        (body location).onFailure (·.remove location)) := rfl

theorem addFile_eq_ok {directory : String} {d d' : Disk} {l : Location} :
    addFile directory d = .ok (l, d') ↔
      ∃ parent, d.locate directory = .ok parent ∧ d.isDirectory parent = true ∧
        l = d.newIn parent ∧ d' = d.put (d.newIn parent) (.file (.bytes .empty) false) := by
  rw [addFile, Except.bind_eq_ok]
  refine exists_congr fun parent => and_congr_right fun _ => ?_
  rw [isDirectory_iff]
  split
  · rename_i hnone
    simp [hnone, throw, throwThe, MonadExceptOf.throw]
  · rename_i hfile
    simp [hfile, throw, throwThe, MonadExceptOf.throw]
  · rename_i hdirectory
    simp [hdirectory, pure, Except.pure, eq_comm]

theorem withTemporaryFile_cases {ε α : Type} (directory : String) (failed : OsError → ε)
    (body : Location → Task ε α) (d : Disk) : ∃ faults,
    (∃ e, (withTemporaryFile directory failed body).runOn d =
        (.error (failed e), { d with faults := faults })) ∨
      ∃ parent, d.locate directory = .ok parent ∧ d.isDirectory parent = true ∧
        ∃ r d', (body (d.newIn parent)).runOn
            ({ d with faults := faults }.put (d.newIn parent) (.file (.bytes .empty) false)) =
              (r, d') ∧
          (withTemporaryFile directory failed body).runOn d = match r with
            | .ok a => (.ok a, d')
            | .error e => (.error e, d'.remove (d.newIn parent)) := by
  obtain ⟨faults, ⟨e, h⟩ | ⟨l, d₁, hf, h⟩⟩ := operation_cases (f := addFile directory) rfl d
  · exact ⟨faults, .inl ⟨e, Task.runOn_bind_of_error (Task.runOn_orError_of_error failed h)⟩⟩
  · obtain ⟨parent, hparent, hdirectory, rfl, rfl⟩ := addFile_eq_ok.1 hf
    rw [locate_withFaults] at hparent
    refine ⟨faults, .inr ⟨parent, hparent, hdirectory, _, _, rfl, ?_⟩⟩
    rw [withTemporaryFile_eq, Task.runOn_bind_of_ok (Task.runOn_orError_of_ok failed h)]
    split
    · rename_i heq
      exact Task.runOn_onFailure_of_ok _ (Prod.ext heq rfl)
    · rename_i heq
      exact Task.runOn_onFailure_of_error _ (Prod.ext heq rfl)

end Disk

/-- What a task makes in a temporary directory is gone after it. -/
theorem Task.ChangesOnly.withTemporaryDirectory {ε α : Type} {S : Location → Prop}
    {failed : OsError → ε} {body : String → Task ε α}
    (h : ∀ l, IsProper l → l ≠ [] → (body (pathOf l)).ChangesOnly fun m => S m ∨ l <+: m) :
    (Disk.withTemporaryDirectory failed body).ChangesOnly S := by
  intro d hd
  obtain ⟨faults, ⟨e, hrun⟩ | ⟨r, d', hbody, hrun⟩⟩ := withTemporaryDirectory_cases failed body d
  · rw [hrun]
    exact .withFaults d faults
  · have hne := d.newIn_ne_nil d.temporary
    have hmade : d.SameOutside (fun m => S m ∨ d.newIn d.temporary <+: m)
        ({ d with faults := faults }.put (d.newIn d.temporary) .directory) :=
      (SameOutside.withFaults d faults).trans (.put (.inr (List.prefix_refl _)) _ _)
    have hsame := hmade.trans
      (h _ (d.isProper_newIn hd.temporary) hne _ (hmade.rooted hd))
    rw [hbody] at hsame
    rw [hrun]
    refine ⟨hsame.working, hsame.temporary, fun l hl => ?_⟩
    rw [find?_remove hne]
    split
    · rename_i hbelow
      exact (find?_freshName d d.temporary hbelow).symm
    · rename_i hbelow
      exact hsame.find? l (not_or.2 ⟨hl, hbelow⟩)

end FormLetter
