import FormLetter.Proofs.Disk.Follow
import FormLetter.Proofs.Failure

/-!
# Runs of tasks

How tasks run that are made of others, and what comes of each operation on a disk: it fails and
changes nothing, or it does what it is for (`operation_cases`). Errors may be seen in another way
before or after tasks are put together (`Task.orError_bind`).
-/

namespace FormLetter

open FormLetter.Disk

namespace Task

variable {ε ε' α β : Type} {d d' : Disk}

theorem runOn_orError {t : Task ε α} {r : Except ε α} (f : ε → ε') (h : t.runOn d = (r, d')) :
    (t.orError f).runOn d = (r.mapError f, d') := by
  change ((t.runOn d).1.mapError f, (t.runOn d).2) = _
  rw [h]

theorem runOn_orError_of_ok {t : Task ε α} {a : α} (f : ε → ε') (h : t.runOn d = (.ok a, d')) :
    (t.orError f).runOn d = (.ok a, d') :=
  runOn_orError f h

theorem runOn_orError_of_error {t : Task ε α} {e : ε} (f : ε → ε')
    (h : t.runOn d = (.error e, d')) : (t.orError f).runOn d = (.error (f e), d') :=
  runOn_orError f h

theorem runOn_outcome {t : Task ε α} {r : Except ε α} (h : t.runOn d = (r, d')) :
    (t.outcome : Task ε' (Except ε α)).runOn d = (.ok r, d') := by
  simp only [runOn, outcome, ExceptT.run] at h ⊢
  rw [h]

theorem runOn_outcome_eq_ok {t : Task ε α} {r : Except ε α} :
    (t.outcome : Task ε' (Except ε α)).runOn d = (.ok r, d') ↔ t.runOn d = (r, d') := by
  refine ⟨fun h => ?_, runOn_outcome⟩
  obtain ⟨hr, hd⟩ := Prod.mk.inj ((runOn_outcome (Prod.eta (t.runOn d)).symm).symm.trans h)
  exact Prod.ext (Except.ok.inj hr) hd

theorem runOn_onFailure_of_ok {t : Task ε α} {a : α} (cleanUp : Disk → Disk)
    (h : t.runOn d = (.ok a, d')) : (t.onFailure cleanUp).runOn d = (.ok a, d') := by
  simp only [runOn, onFailure, ExceptT.run] at h ⊢
  rw [h]

theorem runOn_onFailure_of_error {t : Task ε α} {e : ε} (cleanUp : Disk → Disk)
    (h : t.runOn d = (.error e, d')) : (t.onFailure cleanUp).runOn d = (.error e, cleanUp d') := by
  simp only [runOn, onFailure, ExceptT.run] at h ⊢
  rw [h]

theorem runOn_bind_of_ok {t : Task ε α} {f : α → Task ε β} {a : α}
    (h : t.runOn d = (.ok a, d')) : (t >>= f).runOn d = (f a).runOn d' := by
  change (ExceptT.bind t f).run d = _
  rw [ExceptT.bind]
  change (ExceptT.bindCont f (t.runOn d).1) (t.runOn d).2 = _
  rw [h]
  rfl

theorem runOn_bind_of_error {t : Task ε α} {f : α → Task ε β} {e : ε}
    (h : t.runOn d = (.error e, d')) : (t >>= f).runOn d = (.error e, d') := by
  change (ExceptT.bindCont f (t.runOn d).1) (t.runOn d).2 = _
  rw [h]
  rfl

theorem runOn_bind_cases (t : Task ε α) (f : α → Task ε β) (d : Disk) :
    (∃ a d', t.runOn d = (.ok a, d') ∧ (t >>= f).runOn d = (f a).runOn d') ∨
      ∃ e d', t.runOn d = (.error e, d') ∧ (t >>= f).runOn d = (.error e, d') := by
  cases h : t.runOn d with
  | mk r d' =>
    cases r with
    | ok a => exact .inl ⟨a, d', rfl, runOn_bind_of_ok h⟩
    | error e => exact .inr ⟨e, d', rfl, runOn_bind_of_error h⟩

theorem runOn_bind_eq_ok {t : Task ε α} {f : α → Task ε β} {b : β} :
    (t >>= f).runOn d = (.ok b, d') ↔
      ∃ a d₁, t.runOn d = (.ok a, d₁) ∧ (f a).runOn d₁ = (.ok b, d') := by
  constructor
  · intro h
    rcases runOn_bind_cases t f d with ⟨a, d₁, ht, hbind⟩ | ⟨e, d₁, ht, hbind⟩
    · exact ⟨a, d₁, ht, hbind.symm.trans h⟩
    · cases hbind.symm.trans h
  · rintro ⟨a, d₁, ht, hf⟩
    exact (runOn_bind_of_ok ht).trans hf

theorem runOn_orError_eq_ok {t : Task ε α} {f : ε → ε'} {a : α} :
    (t.orError f).runOn d = (.ok a, d') ↔ t.runOn d = (.ok a, d') := by
  constructor
  · intro h
    cases ht : t.runOn d with
    | mk r d₁ =>
      cases r with
      | ok b =>
        cases (runOn_orError_of_ok f ht).symm.trans h
        rfl
      | error e => cases (runOn_orError_of_error f ht).symm.trans h
  · exact runOn_orError_of_ok f

/-! ## Errors seen in another way -/

variable {ε'' : Type}

theorem ext {t t' : Task ε α} (h : ∀ d, t.runOn d = t'.runOn d) : t = t' := funext h

theorem orError_bind (t : Task ε α) (f : α → Task ε β) (g : ε → ε') :
    (t >>= f).orError g = t.orError g >>= fun a => (f a).orError g := by
  refine ext fun d => ?_
  rcases runOn_bind_cases t f d with ⟨a, d', ht, hbind⟩ | ⟨e, d', ht, hbind⟩
  · rw [runOn_orError g hbind, runOn_bind_of_ok (runOn_orError_of_ok g ht)]
    rfl
  · rw [runOn_orError g hbind, runOn_bind_of_error (runOn_orError_of_error g ht)]
    rfl

theorem orError_orError (t : Task ε α) (f : ε → ε') (g : ε' → ε'') :
    (t.orError f).orError g = t.orError fun e => g (f e) := by
  refine ext fun d => ?_
  obtain ⟨r, d', ht⟩ : ∃ r d', t.runOn d = (r, d') := ⟨_, _, rfl⟩
  rw [runOn_orError g (runOn_orError f ht), runOn_orError _ ht]
  cases r <;> rfl

theorem orError_withTemporaryDirectory (failed : OsError → ε) (body : String → Task ε α)
    (g : ε → ε') : (withTemporaryDirectory failed body).orError g =
      withTemporaryDirectory (fun e => g (failed e)) fun directory =>
        (body directory).orError g := by
  rw [withTemporaryDirectory, orError_bind, orError_orError]
  rfl

def Yields (t : Task ε α) (p : α → Prop) : Prop :=
  ∀ (d d' : Disk) (a : α), t.runOn d = (.ok a, d') → p a

def FailsWith (t : Task ε α) (p : ε → Prop) : Prop :=
  ∀ (d d' : Disk) (e : ε), t.runOn d = (.error e, d') → p e

namespace Yields

variable {p : α → Prop} {q : β → Prop}

theorem pure {a : α} (h : p a) : Yields (pure a : Task ε α) p := by
  rintro d d' a ⟨⟩
  exact h

theorem throw (e : ε) : Yields (throw e : Task ε α) p := by
  rintro d d' a ⟨⟩

theorem bind (t : Task ε α) {f : α → Task ε β} (h : ∀ a, (f a).Yields q) : (t >>= f).Yields q := by
  intro d d' b hrun
  obtain ⟨a, d₁, -, hf⟩ := runOn_bind_eq_ok.1 hrun
  exact h a d₁ d' b hf

end Yields

namespace FailsWith

variable {p : ε → Prop} {t : Task ε α}

theorem pure (a : α) : FailsWith (pure a : Task ε α) p := by
  rintro d d' e ⟨⟩

theorem throw {e : ε} (h : p e) : FailsWith (throw e : Task ε α) p := by
  rintro d d' e ⟨⟩
  exact h

theorem bind {f : α → Task ε β} (ht : t.FailsWith p) (hf : ∀ a, (f a).FailsWith p) :
    (t >>= f).FailsWith p := by
  intro d d' e hrun
  rcases runOn_bind_cases t f d with ⟨a, d₁, -, hbind⟩ | ⟨e', d₁, hfails, hbind⟩
  · exact hf a d₁ d' e (hbind.symm.trans hrun)
  · cases hbind.symm.trans hrun
    exact ht d d' e hfails

theorem of_forall (h : ∀ e, p e) (t : Task ε α) : t.FailsWith p := fun _ _ e _ => h e

theorem orError {f : ε' → ε} {t : Task ε' α} (h : t.FailsWith fun e => p (f e)) :
    (t.orError f).FailsWith p := by
  intro d d' e hrun
  obtain ⟨r, d₁, ht⟩ : ∃ r d₁, t.runOn d = (r, d₁) := ⟨_, _, rfl⟩
  rw [runOn_orError f ht] at hrun
  cases r with
  | ok a => cases hrun
  | error e' =>
    cases hrun
    exact h d _ e' ht

theorem orError_eq_self {f : ε → ε} (h : t.FailsWith fun e => f e = e) : t.orError f = t := by
  refine ext fun d => ?_
  obtain ⟨r, d', ht⟩ : ∃ r d', t.runOn d = (r, d') := ⟨_, _, rfl⟩
  rw [runOn_orError f ht, ht]
  cases r with
  | ok a => rfl
  | error e => exact congrArg (fun e => (Except.error e, d')) (h d d' e ht)

end FailsWith

end Task

/-! ## Operations -/

namespace Disk

variable {d d' : Disk} {path : String}

theorem runOn_attempt (h : d.faults = []) : Task.runOn attempt d = (.ok (), d) := by
  obtain ⟨items, working, temporary, faults⟩ := d
  cases h
  rfl

theorem attempt_cases (d : Disk) : ∃ faults,
    Task.runOn attempt d = (.ok (), { d with faults := faults }) ∨
      ∃ e, Task.runOn attempt d = (.error e, { d with faults := faults }) := by
  obtain ⟨items, working, temporary, faults⟩ := d
  match faults with
  | [] => exact ⟨[], .inl rfl⟩
  | none :: faults => exact ⟨faults, .inl rfl⟩
  | some e :: faults => exact ⟨faults, .inr ⟨e, rfl⟩⟩

variable {α : Type} {f : Disk → Except OsError (α × Disk)} {t : Task OsError α}

theorem runOn_operation (ht : t = operation f) (h : d.faults = []) :
    t.runOn d = match f d with
      | .ok (a, d') => (.ok a, d')
      | .error e => (.error e, d) := by
  rw [ht]
  exact Task.runOn_bind_of_ok (runOn_attempt h)

/-- An operation fails and changes nothing but the faults to come, or it does what it is for. -/
theorem operation_cases (ht : t = operation f) (d : Disk) : ∃ faults,
    (∃ e, t.runOn d = (.error e, { d with faults := faults })) ∨
      ∃ a d', f { d with faults := faults } = .ok (a, d') ∧ t.runOn d = (.ok a, d') := by
  obtain ⟨faults, h | ⟨e, h⟩⟩ := attempt_cases d
  · have hrun : t.runOn d = match f { d with faults := faults } with
        | .ok (a, d') => (.ok a, d')
        | .error e => (.error e, { d with faults := faults }) := by
      rw [ht]
      exact Task.runOn_bind_of_ok h
    refine ⟨faults, ?_⟩
    cases hf : f { d with faults := faults } with
    | ok r => exact .inr ⟨r.1, r.2, rfl, by rw [hrun, hf]⟩
    | error e => exact .inl ⟨e, by rw [hrun, hf]⟩
  · refine ⟨faults, .inl ⟨e, ?_⟩⟩
    rw [ht]
    exact Task.runOn_bind_of_error h

theorem find?_withFaults (d : Disk) (faults : List (Option OsError)) (l : Location) :
    { d with faults := faults }.find? l = d.find? l := rfl

theorem follow_withFaults (d : Disk) (faults : List (Option OsError)) (l : Location)
    (ss : List String) : { d with faults := faults }.follow l ss = d.follow l ss :=
  follow_congr (find?_withFaults d faults) l ss

theorem locate_withFaults (d : Disk) (faults : List (Option OsError)) (path : String) :
    { d with faults := faults }.locate path = d.locate path :=
  locate_congr rfl (find?_withFaults d faults)

/-- The content of the file at a path. -/
def fileAt? (d : Disk) (path : String) : Option Content :=
  match d.locate path with
  | .ok location => d.content? location
  | .error _ => none

theorem fileAt?_eq_some_iff {content : Content} : d.fileAt? path = some content ↔
    ∃ t, d.locate path = .ok t ∧ d.content? t = some content := by
  rw [fileAt?]
  cases d.locate path with
  | ok t => simp
  | error e => simp

theorem fileAt?_congr (hworking : d'.working = d.working) (h : ∀ l, d'.find? l = d.find? l) :
    d'.fileAt? path = d.fileAt? path := by
  rw [fileAt?, fileAt?, locate_congr hworking h]
  split
  · exact content?_congr (h _)
  · rfl

theorem read_cases (path : String) (d : Disk) : ∃ faults,
    (∃ e, (Disk.read path).runOn d = (.error e, { d with faults := faults })) ∨
      ∃ content, d.fileAt? path = some content ∧
        (Disk.read path).runOn d = (.ok content, { d with faults := faults }) := by
  obtain ⟨faults, h | ⟨content, d', hf, hrun⟩⟩ := operation_cases (t := Disk.read path) rfl d
  · exact ⟨faults, .inl h⟩
  · obtain ⟨t, ht, hf⟩ := Except.bind_eq_ok.1 hf
    rw [locate_withFaults] at ht
    split at hf
    · cases hf
    · cases hf
    · rename_i executable hfile
      split at hf
      · cases hf
      · cases hf
        exact ⟨faults, .inr ⟨content, fileAt?_eq_some_iff.2
          ⟨t, ht, content?_eq_some_iff.2 ⟨executable, hfile⟩⟩, hrun⟩⟩

theorem write_cases (path : String) (content : Content) (d : Disk) : ∃ faults,
    (∃ e, (Disk.write path content).runOn d = (.error e, { d with faults := faults })) ∨
      ∃ t executable, d.locate path = .ok t ∧ d.isDirectory t = false ∧
        (Disk.write path content).runOn d =
          (.ok (), { d with faults := faults }.put t (.file content executable)) := by
  obtain ⟨faults, h | ⟨_, d', hf, hrun⟩⟩ :=
    operation_cases (t := Disk.write path content) rfl d
  · exact ⟨faults, .inl h⟩
  · obtain ⟨t, ht, hf⟩ := Except.bind_eq_ok.1 hf
    rw [locate_withFaults] at ht
    simp only at hf
    split at hf
    · cases hf
    · rename_i hd
      cases hf
      rw [Bool.or_eq_true, not_or, Bool.not_eq_true] at hd
      exact ⟨faults, .inr ⟨t, _, ht, hd.1, hrun⟩⟩

theorem ne_nil_of_isDirectory_eq_false {l : Location} (h : d.isDirectory l = false) : l ≠ [] := by
  rintro rfl
  cases h

/-- What is in another file after a file is written was there before. -/
theorem fileAt?_of_write {content content' : Content} {other : String}
    (hrun : (Disk.write path content).runOn d = (.ok (), d'))
    (hne : ∀ t u, d.locate path = .ok t → d.locate other = .ok u → u ≠ t)
    (hfile : d'.fileAt? other = some content') : d.fileAt? other = some content' := by
  obtain ⟨faults, ⟨e, h⟩ | ⟨t, executable, ht, hd, h⟩⟩ := write_cases path content d
  · cases h.symm.trans hrun
  · cases h.symm.trans hrun
    obtain ⟨u, hu, hcontent⟩ := fileAt?_eq_some_iff.1 hfile
    have hsame : ∀ m, m ≠ t →
        ({ d with faults := faults }.put t (.file content executable)).find? m = d.find? m :=
      fun m hm => find?_put_of_ne hm _ _
    have hworking : d.working =
        ({ d with faults := faults }.put t (.file content executable)).working := rfl
    have hu' : d.locate other = .ok u := by
      refine locate_of_le hworking (fun m hm => ?_) hu
      have hmt : m ≠ t := by
        rintro rfl
        rw [isDirectory_iff, find?_put_self (ne_nil_of_isDirectory_eq_false hd)] at hm
        cases hm
      rwa [isDirectory_congr (hsame m hmt)] at hm
    refine fileAt?_eq_some_iff.2 ⟨u, hu', ?_⟩
    rwa [content?_congr (hsame u (hne t u ht hu'))] at hcontent

theorem makeDirectories_cases (path : String) (d : Disk) : ∃ faults,
    (∃ e, (makeDirectories path).runOn d = (.error e, { d with faults := faults })) ∨
      ∃ d', { d with faults := faults }.makeSteps (d.start path) (steps path) = .ok d' ∧
        (makeDirectories path).runOn d = (.ok (), d') := by
  obtain ⟨faults, h | ⟨_, d', hf, hrun⟩⟩ := operation_cases (t := makeDirectories path) rfl d
  · exact ⟨faults, .inl h⟩
  · obtain ⟨d₁, hsteps, hf⟩ := Except.bind_eq_ok.1 hf
    cases hf
    exact ⟨faults, .inr ⟨d', hsteps, hrun⟩⟩

theorem move_cases (source : Location) (path : String) (d : Disk) : ∃ faults,
    (∃ e, (move source path).runOn d = (.error e, { d with faults := faults })) ∨
      ∃ t content, d.locate path = .ok t ∧ t ≠ [] ∧ d.isDirectory t = false ∧
        endsInDirectory path = false ∧ d.content? source = some content ∧
          (move source path).runOn d = (.ok (),
            ({ d with faults := faults }.remove source).put t (.file content false)) := by
  obtain ⟨faults, h | ⟨_, d', hf, hrun⟩⟩ := operation_cases (t := move source path) rfl d
  · exact ⟨faults, .inl h⟩
  · obtain ⟨t, ht, hf⟩ := Except.bind_eq_ok.1 hf
    rw [locate_withFaults] at ht
    simp only at hf
    obtain ⟨hbusy, hf⟩ := Except.unless_throw_eq_ok.1 hf
    obtain ⟨hends, hf⟩ := Except.unless_throw_eq_ok.1 hf
    obtain ⟨hdirectory, hf⟩ := Except.unless_throw_eq_ok.1 hf
    have hroot : t ≠ [] := by
      rintro rfl
      exact hbusy (by simp)
    split at hf
    · cases hf
    · rename_i content hcontent
      cases hf
      exact ⟨faults, .inr ⟨t, content, ht, hroot, Bool.eq_false_iff.2 hdirectory,
        Bool.eq_false_iff.2 hends, hcontent, hrun⟩⟩

end Disk

end FormLetter
