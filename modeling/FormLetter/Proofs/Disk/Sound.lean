import FormLetter.Proofs.Disk.Frame

/-!
# Disks without faults

On a disk without faults, whose own directories are there (`Disk.Sound`), a file can be written if
its path leads to no directory (`Disk.Accepts`), and what is written can be read. Files come and
go, but as long as the directories are the same (`Disk.FilesOnly`), the same paths can be written.
-/

namespace FormLetter.Disk

variable {d d' d'' : Disk} {l m s t : Location} {path : String} {S S' : Location → Prop}

def Reaches (d : Disk) (l : Location) : Prop := ∀ m, m <+: l → d.isDirectory m = true

theorem reaches_iff_take : d.Reaches l ↔ ∀ n < l.length + 1, d.isDirectory (l.take n) = true := by
  refine ⟨fun h n _ => h _ (List.take_prefix n l), fun h m hm => ?_⟩
  rw [List.prefix_iff_eq_take.1 hm]
  exact h _ (Nat.lt_succ_of_le hm.length_le)

instance (d : Disk) (l : Location) : Decidable (d.Reaches l) :=
  decidable_of_iff _ reaches_iff_take.symm

theorem Reaches.isDirectory (h : d.Reaches l) : d.isDirectory l = true := h l (List.prefix_refl l)

theorem reaches_nil (d : Disk) : d.Reaches [] := by
  intro m hm
  rw [List.prefix_nil.1 hm]
  rfl

theorem Reaches.of_prefix (h : d.Reaches l) (hm : m <+: l) : d.Reaches m :=
  fun k hk => h k (hk.trans hm)

theorem Reaches.concat {name : String} (h : d.Reaches l)
    (hname : d.isDirectory (l ++ [name]) = true) : d.Reaches (l ++ [name]) := by
  intro m hm
  rcases List.prefix_concat_iff.1 hm with rfl | hm
  · exact hname
  · exact h m hm

theorem Reaches.mono (hd : ∀ m, d.isDirectory m = true → d'.isDirectory m = true)
    (h : d.Reaches l) : d'.Reaches l :=
  fun m hm => hd m (h m hm)

/-- Where a path leads from a directory that is reached is reached, too. -/
theorem Reaches.follow {ss : List String} (h : d.Reaches l) (hfollow : d.follow l ss = .ok t)
    (ht : d.isDirectory t = true) : d.Reaches t := by
  induction ss generalizing l with
  | nil =>
    cases hfollow
    exact h
  | cons step ss ih =>
    obtain ⟨-, hfollow⟩ := follow_cons_eq_ok.1 hfollow
    refine ih ?_ hfollow
    have hnext := isDirectory_of_follow hfollow ht
    rw [walk] at hnext ⊢
    split at hnext
    · rename_i hup
      rw [if_pos hup]
      exact h.of_prefix (List.dropLast_prefix l)
    · rename_i hup
      rw [if_neg hup]
      exact h.concat hnext

theorem Reaches.locate_pathOf_concat {name : String} (h : d.Reaches l)
    (hl : IsProper (l ++ [name])) : d.locate (pathOf (l ++ [name])) = .ok (l ++ [name]) := by
  have hne : pathOf (l ++ [name]) ≠ "" := by simp [pathOf]
  have hup : ".." ∉ l ++ [name] := fun hm => (hl _ hm).2.2.1 rfl
  refine locate_eq_ok.2 ⟨hne, ?_⟩
  rw [start_of_isAbsolute (isAbsolute_pathOf _), steps_pathOf hl]
  refine follow_of_isDirectory hup fun m _ hm hne => ?_
  exact h m ((List.prefix_concat_iff.1 hm).resolve_left hne)

theorem Reaches.locate_join {part : String} (h : d.Reaches l) (hl : IsProper l)
    (hpart : IsPart part) : d.locate (join (pathOf l) part) = .ok (l ++ [part]) := by
  have hproper : IsProper (l ++ [part]) := hl.append (List.forall_mem_singleton.2 hpart)
  have hne : join (pathOf l) part ≠ "" := by simp [join, pathOf]
  have hup : ".." ∉ l ++ [part] := fun hm => (hproper _ hm).2.2.1 rfl
  refine locate_eq_ok.2 ⟨hne, ?_⟩
  rw [start_of_isAbsolute (isAbsolute_join (isAbsolute_pathOf l) part), steps_join_pathOf hl,
    steps_of_isPart hpart]
  refine follow_of_isDirectory hup fun m _ hm hne => ?_
  exact h m ((List.prefix_concat_iff.1 hm).resolve_left hne)

theorem endsInDirectory_of_isPart (h : IsPart (lastPart path)) : endsInDirectory path = false := by
  simp [endsInDirectory, h.1, h.2.1, h.2.2.1]

theorem lastPart_join {part : String} (h : IsPart part) : lastPart (join path part) = part := by
  have hpath : (join path part).toList = (path.toList ++ ['/']) ++ part.toList := by simp [join]
  rw [lastPart_eq hpath h.2.2.2 (.inr ⟨_, rfl⟩), String.ofList_toList]

theorem exists_intercalate_concat (l : Location) (name : String) :
    ∃ front, ("/".intercalate (l ++ [name])).toList = front ++ name.toList ∧
      (front = [] ∨ ∃ ds, front = ds ++ ['/']) := by
  induction l with
  | nil => exact ⟨[], by simp, .inl rfl⟩
  | cons n l ih =>
    obtain ⟨front, hchars, hfront⟩ := ih
    obtain ⟨next, rest, hrest⟩ :=
      List.exists_cons_of_ne_nil (List.append_ne_nil_of_right_ne_nil l (List.cons_ne_nil name []))
    rw [hrest] at hchars
    refine ⟨n.toList ++ '/' :: front, ?_, .inr ?_⟩
    · rw [List.cons_append, hrest, String.intercalate_cons_cons]
      simp [hchars]
    · rcases hfront with rfl | ⟨ds, rfl⟩
      · exact ⟨n.toList, rfl⟩
      · exact ⟨n.toList ++ '/' :: ds, by simp⟩

theorem lastPart_pathOf_concat {name : String} (h : IsPart name) :
    lastPart (pathOf (l ++ [name])) = name := by
  obtain ⟨front, hchars, hfront⟩ := exists_intercalate_concat l name
  have hpath : (pathOf (l ++ [name])).toList = ('/' :: front) ++ name.toList := by
    simp [pathOf, hchars]
  rw [lastPart_eq hpath h.2.2.2 (.inr ?_), String.ofList_toList]
  rcases hfront with rfl | ⟨ds, rfl⟩
  · exact ⟨[], rfl⟩
  · exact ⟨'/' :: ds, rfl⟩

/-! ## Changing files only -/

/-- Only files have changed, and only in some locations. -/
structure FilesOnly (S : Location → Prop) (d d' : Disk) : Prop extends d.SameOutside S d' where
  faults : d'.faults = d.faults
  isDirectory : ∀ l, d'.isDirectory l = d.isDirectory l

namespace FilesOnly

theorem refl (d : Disk) : d.FilesOnly S d := ⟨.refl d, rfl, fun _ => rfl⟩

theorem trans (h : d.FilesOnly S d') (h' : d'.FilesOnly S d'') : d.FilesOnly S d'' :=
  ⟨h.toSameOutside.trans h'.toSameOutside, h'.faults.trans h.faults,
    fun l => (h'.isDirectory l).trans (h.isDirectory l)⟩

theorem mono (hS : ∀ l, S l → S' l) (h : d.FilesOnly S d') : d.FilesOnly S' d' :=
  ⟨h.toSameOutside.mono hS, h.faults, h.isDirectory⟩

theorem put (hl : d.isDirectory l = false) (content : Content) (executable : Bool) :
    d.FilesOnly (· = l) (d.put l (.file content executable)) := by
  refine ⟨.put (S := (· = l)) rfl _ _, rfl, fun m => ?_⟩
  by_cases hm : m = l
  · subst hm
    rw [hl, Bool.eq_false_iff, ne_eq, isDirectory_iff,
      find?_put_self (ne_nil_of_isDirectory_eq_false hl)]
    exact fun h => by cases h
  · exact isDirectory_congr (find?_put_of_ne hm _ _)

theorem below {name : String} (h : d.FilesOnly (· = l ++ [name]) d') :
    d.FilesOnly (Below l) d' := by
  refine h.mono fun m hm => ?_
  rw [hm]
  exact below_concat l name

theorem reaches (h : d.FilesOnly S d') (hl : d.Reaches l) : d'.Reaches l :=
  hl.mono fun m hm => (h.isDirectory m).trans hm

theorem locate (h : d.FilesOnly S d') (ht : d.locate path = .ok t) : d'.locate path = .ok t :=
  locate_of_le h.working (fun m hm => (h.isDirectory m).trans hm) ht

end FilesOnly

/-- A disk without faults, where the working directory and the directory for temporary files are
there. -/
structure Sound (d : Disk) : Prop extends d.Rooted where
  faults : d.faults = []
  reaches_working : d.Reaches d.working
  reaches_temporary : d.Reaches d.temporary

theorem Sound.of_le (h : d.Sound) (hworking : d'.working = d.working)
    (htemporary : d'.temporary = d.temporary) (hfaults : d'.faults = d.faults)
    (hd : ∀ m, d.isDirectory m = true → d'.isDirectory m = true) : d'.Sound where
  working := hworking ▸ h.working
  temporary := htemporary ▸ h.temporary
  faults := hfaults.trans h.faults
  reaches_working := hworking ▸ h.reaches_working.mono hd
  reaches_temporary := htemporary ▸ h.reaches_temporary.mono hd

theorem FilesOnly.sound (h : d.FilesOnly S d') (hd : d.Sound) : d'.Sound :=
  hd.of_le h.working h.temporary h.faults fun m hm => (h.isDirectory m).trans hm

theorem Sound.reaches_start (h : d.Sound) (path : String) : d.Reaches (d.start path) := by
  rw [start]
  split
  · exact reaches_nil d
  · exact h.reaches_working

/-- A path leads to where a file is or can be. -/
structure Accepts (d : Disk) (path : String) (t : Location) : Prop where
  locate : d.locate path = .ok t
  isDirectory : d.isDirectory t = false
  endsInDirectory : endsInDirectory path = false

theorem FilesOnly.accepts (h : d.FilesOnly S d') (ht : d.Accepts path t) : d'.Accepts path t :=
  ⟨h.locate ht.locate, (h.isDirectory t).trans ht.isDirectory, ht.endsInDirectory⟩

theorem Reaches.accepts_join {part : String} (h : d.Reaches l) (hl : IsProper l)
    (hpart : IsPart part) (hfile : d.isDirectory (l ++ [part]) = false) :
    d.Accepts (join (pathOf l) part) (l ++ [part]) := by
  refine ⟨h.locate_join hl hpart, hfile, endsInDirectory_of_isPart ?_⟩
  rw [lastPart_join hpart]
  exact hpart

theorem Reaches.accepts_pathOf_concat {name : String} (h : d.Reaches l)
    (hl : IsProper (l ++ [name])) (hfile : d.isDirectory (l ++ [name]) = false) :
    d.Accepts (pathOf (l ++ [name])) (l ++ [name]) := by
  have hname : IsPart name := hl name (by simp)
  refine ⟨h.locate_pathOf_concat hl, hfile, endsInDirectory_of_isPart ?_⟩
  rw [lastPart_pathOf_concat hname]
  exact hname

theorem Accepts.fileAt?_eq (h : d.Accepts path t) : d.fileAt? path = d.content? t := by
  rw [fileAt?, h.locate]

theorem runOn_write (hd : d.faults = []) (h : d.Accepts path t) (content : Content) :
    ∃ d', (Disk.write path content).runOn d = (.ok (), d') ∧ d.FilesOnly (· = t) d' ∧
      d'.content? t = some content := by
  have hrun := runOn_operation (t := Disk.write path content) rfl hd
  rw [h.locate] at hrun
  simp only [bind, Except.bind, h.isDirectory, h.endsInDirectory] at hrun
  refine ⟨_, hrun, .put h.isDirectory _ _, ?_⟩
  rw [content?, find?_put_self (ne_nil_of_isDirectory_eq_false h.isDirectory)]

theorem runOn_write_of_none (hd : d.faults = []) (h : d.Accepts path t) (hnone : d.find? t = none)
    (content : Content) :
    (Disk.write path content).runOn d = (.ok (), d.put t (.file content false)) := by
  have hrun := runOn_operation (t := Disk.write path content) rfl hd
  rw [h.locate] at hrun
  simp only [bind, Except.bind, h.isDirectory, h.endsInDirectory, hnone] at hrun
  exact hrun

theorem runOn_read (hd : d.faults = []) (h : d.Accepts path t) {content : Content}
    (ht : d.content? t = some content) : (Disk.read path).runOn d = (.ok content, d) := by
  obtain ⟨executable, hfile⟩ := content?_eq_some_iff.1 ht
  have hrun := runOn_operation (t := Disk.read path) rfl hd
  rw [h.locate] at hrun
  simp only [bind, Except.bind, hfile, h.endsInDirectory] at hrun
  exact hrun

theorem runOn_copy {source target : String} {content : Content} (hd : d.faults = [])
    (hs : d.Accepts source s) (hcontent : d.content? s = some content) (ht : d.Accepts target t) :
    ∃ d', (copy source target).runOn d = (.ok (), d') ∧ d.FilesOnly (· = t) d' ∧
      d'.content? t = some content := by
  obtain ⟨d', hwrite, h⟩ := runOn_write hd ht content
  refine ⟨d', (Task.runOn_bind_of_ok ?_).trans hwrite, h⟩
  exact Task.runOn_orError_of_ok _ (runOn_read hd hs hcontent)

theorem runOn_move {source : Location} {content : Content} (hd : d.faults = [])
    (ht : d.Accepts path t) (hcontent : d.content? source = some content) :
    (move source path).runOn d = (.ok (), (d.remove source).put t (.file content false)) := by
  have hname := isPart_lastPart ht.endsInDirectory
  have hne := ne_nil_of_isDirectory_eq_false ht.isDirectory
  have hrun := runOn_operation (t := move source path) rfl hd
  rw [ht.locate] at hrun
  simp only [bind, Except.bind, hname.2.1, hname.2.2.1, hne, ht.isDirectory, ht.endsInDirectory,
    hcontent] at hrun
  exact hrun

theorem runOn_makeDirectories_eq_ok (hd : d.faults = []) :
    (makeDirectories path).runOn d = (.ok (), d') ↔
      d.makeSteps (d.start path) (steps path) = .ok d' := by
  have hrun := runOn_operation (t := makeDirectories path) rfl hd
  rw [start, hrun]
  cases d.makeSteps (if isAbsolute path then [] else d.working) (steps path) with
  | ok d₁ => simp [bind, Except.bind, pure, Except.pure]
  | error e => simp [bind, Except.bind]

theorem Sound.of_makeSteps (hd : d.Sound) {ss : List String} (h : d.makeSteps l ss = .ok d') :
    d'.Sound := by
  obtain ⟨hworking, htemporary, hfaults⟩ := makeSteps_fields h
  exact hd.of_le hworking htemporary hfaults fun _ => isDirectory_of_makeSteps h

/-! ## Temporary directories and files -/

def withNewDirectory (d : Disk) : Disk := d.put (d.newIn d.temporary) .directory

theorem runOn_withTemporaryDirectory {ε α : Type} {failed : OsError → ε} {body : String → Task ε α}
    {r : Except ε α} (hd : d.faults = [])
    (h : (body (pathOf (d.newIn d.temporary))).runOn d.withNewDirectory = (r, d')) :
    (withTemporaryDirectory failed body).runOn d = (r, d'.remove (d.newIn d.temporary)) := by
  have hrun := runOn_operation
    (f := fun d => .ok (d.newIn d.temporary, d.put (d.newIn d.temporary) .directory)) rfl hd
  refine (Task.runOn_bind_of_ok (Task.runOn_orError_of_ok failed hrun)).trans ?_
  exact congrArg (fun p : Except ε α × Disk => (p.1, p.2.remove (d.newIn d.temporary))) h

theorem runOn_withTemporaryFile {ε α : Type} {directory : String} {failed : OsError → ε}
    {body : Location → Task ε α} {r : Except ε α} {parent : Location} (hd : d.faults = [])
    (hparent : d.locate directory = .ok parent) (hdirectory : d.isDirectory parent = true)
    (h : (body (d.newIn parent)).runOn (d.put (d.newIn parent) (.file (.bytes .empty) false)) =
      (r, d')) :
    (withTemporaryFile directory failed body).runOn d = match r with
      | .ok a => (.ok a, d')
      | .error e => (.error e, d'.remove (d.newIn parent)) := by
  have hrun := runOn_operation (f := addFile directory) rfl hd
  rw [addFile_eq_ok.2 ⟨parent, hparent, hdirectory, rfl, rfl⟩] at hrun
  rw [withTemporaryFile_eq, Task.runOn_bind_of_ok (Task.runOn_orError_of_ok failed hrun)]
  cases r with
  | ok a => exact Task.runOn_onFailure_of_ok _ h
  | error e => exact Task.runOn_onFailure_of_error _ h

theorem find?_withNewDirectory (d : Disk) (hm : ¬d.newIn d.temporary <+: m) :
    d.withNewDirectory.find? m = d.find? m :=
  find?_put_of_ne (ne_of_not_under hm) _ _

theorem isDirectory_withNewDirectory (hm : d.isDirectory m = true) :
    d.withNewDirectory.isDirectory m = true := by
  rw [isDirectory_congr (d.find?_withNewDirectory fun hp => ?_)]
  · exact hm
  · rw [isDirectory_iff, find?_freshName d d.temporary hp] at hm
    cases hm

theorem Sound.withNewDirectory (h : d.Sound) : d.withNewDirectory.Sound :=
  h.of_le rfl rfl rfl fun _ => isDirectory_withNewDirectory

theorem Sound.isProper_new (h : d.Sound) : IsProper (d.newIn d.temporary) :=
  d.isProper_newIn h.temporary

theorem Sound.reaches_new (h : d.Sound) : d.withNewDirectory.Reaches (d.newIn d.temporary) := by
  refine (h.reaches_temporary.mono fun _ => isDirectory_withNewDirectory).concat ?_
  rw [isDirectory_iff]
  exact find?_put_self (d.newIn_ne_nil _) _ _

theorem find?_below_new (h : Below (d.newIn d.temporary) m) :
    d.withNewDirectory.find? m = none := by
  rw [withNewDirectory, find?_put_of_ne h.2]
  exact find?_freshName d d.temporary h.1

theorem isDirectory_below_new (d : Disk) (name : String) :
    d.withNewDirectory.isDirectory (d.newIn d.temporary ++ [name]) = false := by
  rw [isDirectory, find?_below_new (below_concat ..)]

theorem Sound.accepts_new (h : d.Sound) {part : String} (hpart : IsPart part) :
    d.withNewDirectory.Accepts (join (pathOf (d.newIn d.temporary)) part)
      (d.newIn d.temporary ++ [part]) :=
  h.reaches_new.accepts_join h.isProper_new hpart (d.isDirectory_below_new part)

theorem Accepts.ne_new (h : d.Accepts path t) (hname : ¬IsMadeUp (lastPart path)) :
    t ≠ d.newIn d.temporary := by
  obtain ⟨parent, -, -, rfl⟩ := exists_of_locate h.endsInDirectory h.locate
  intro heq
  have hlast := List.append_inj_right' heq rfl
  exact hname (List.singleton_inj.1 hlast ▸ isMadeUp_freshName d)

theorem Accepts.not_under_new (h : d.Accepts path t) (hne : t ≠ d.newIn d.temporary) :
    ¬d.newIn d.temporary <+: t := by
  obtain ⟨parent, hparent, -, rfl⟩ := exists_of_locate h.endsInDirectory h.locate
  intro hp
  rcases List.prefix_concat_iff.1 hp with heq | hp
  · exact hne heq.symm
  · rw [isDirectory_iff, find?_freshName d d.temporary hp] at hparent
    cases hparent

theorem not_under_new_of_content? {content : Content} (h : d.content? m = some content) :
    ¬d.newIn d.temporary <+: m := by
  intro hp
  obtain ⟨executable, hfile⟩ := content?_eq_some_iff.1 h
  rw [find?_freshName d d.temporary hp] at hfile
  cases hfile

theorem Accepts.withNewDirectory (h : d.Accepts path t) (ht : ¬d.newIn d.temporary <+: t) :
    d.withNewDirectory.Accepts path t := by
  refine ⟨locate_of_le (d := d) rfl (fun _ => isDirectory_withNewDirectory) h.locate, ?_,
    h.endsInDirectory⟩
  rw [isDirectory_congr (d.find?_withNewDirectory ht)]
  exact h.isDirectory

/-- After a new directory is taken away, what was done elsewhere is left. -/
theorem filesOnly_remove_new
    (hsame : d.withNewDirectory.SameOutside (fun m => S m ∨ d.newIn d.temporary <+: m) d')
    (hfaults : d'.faults = d.faults)
    (hd : ∀ m, ¬d.newIn d.temporary <+: m → d'.isDirectory m = d.withNewDirectory.isDirectory m) :
    d.FilesOnly S (d'.remove (d.newIn d.temporary)) := by
  have hfind : ∀ m, (d'.remove (d.newIn d.temporary)).find? m =
      if d.newIn d.temporary <+: m then none else d'.find? m :=
    find?_remove (d.newIn_ne_nil _) d'
  refine ⟨⟨hsame.working, hsame.temporary, fun m hm => ?_⟩, hfaults, fun m => ?_⟩
  · rw [hfind]
    split
    · rename_i hp
      exact (find?_freshName d d.temporary hp).symm
    · rename_i hp
      exact (hsame.find? m (not_or.2 ⟨hm, hp⟩)).trans (d.find?_withNewDirectory hp)
  · by_cases hp : d.newIn d.temporary <+: m
    · refine isDirectory_congr ?_
      rw [hfind, if_pos hp, find?_freshName d d.temporary hp]
    · rw [isDirectory_congr (d := d') (by rw [hfind, if_neg hp]), hd m hp,
        isDirectory_congr (d.find?_withNewDirectory hp)]

end FormLetter.Disk
