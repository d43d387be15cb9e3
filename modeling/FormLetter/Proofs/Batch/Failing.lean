import FormLetter.Proofs.Batch.Atomic

/-!
# What a failed batch blames

A batch that fails at an item gives the index of a context and the reason why the document of this
context cannot be made (`failsWith_write`): the template cannot be expanded, or the document cannot
be saved or converted (`failsWith_makeItem`).
-/

namespace FormLetter

open FormLetter.Disk

namespace Task.FailsWith

variable {ε α : Type} {p : ε → Prop} {failed : OsError → ε}

theorem withTemporaryDirectory {body : String → Task ε α} (hfailed : ∀ e, p (failed e))
    (hbody : ∀ directory, (body directory).FailsWith p) :
    (Disk.withTemporaryDirectory failed body).FailsWith p := by
  intro d d' e hrun
  obtain ⟨faults, ⟨cause, h⟩ | ⟨r, d₁, hinside, h⟩⟩ := withTemporaryDirectory_cases failed body d
  · cases h.symm.trans hrun
    exact hfailed cause
  · cases h.symm.trans hrun
    exact hbody _ _ _ e hinside

theorem withTemporaryFile {directory : String} {body : Location → Task ε α}
    (hfailed : ∀ e, p (failed e)) (hbody : ∀ location, (body location).FailsWith p) :
    (Disk.withTemporaryFile directory failed body).FailsWith p := by
  intro d d' e hrun
  obtain ⟨faults, ⟨cause, h⟩ | ⟨parent, -, -, r, d₁, hinside, h⟩⟩ :=
    withTemporaryFile_cases directory failed body d
  · cases h.symm.trans hrun
    exact hfailed cause
  · cases r with
    | ok a => cases h.symm.trans hrun
    | error e' =>
      cases h.symm.trans hrun
      exact hbody _ _ _ e hinside

end Task.FailsWith

def Converter.Fails (c : Converter) (e : ConvertError) : Prop :=
  ∃ source target d d', (c.convert source target).runOn d = (.error e, d')

namespace Batch

variable {batch : Batch} {index : Nat} {contexts : List Context}

/-- Why the document of a context cannot be made: its template cannot be expanded, it cannot be
saved, or it cannot be converted. -/
def Unmade (batch : Batch) (ctx : Context) : ItemError → Prop
  | .template e => batch.engine.expand batch.template.tree ctx = .error e
  | .document _ => True
  | .convert e => ∃ c ∈ batch.converter, c.Fails e

theorem failsWith_makeItem (batch : Batch) (directory : String) (index : Nat) (ctx : Context) :
    (batch.makeItem directory index ctx).FailsWith (batch.Unmade ctx) := by
  rw [makeItem]
  split
  · rename_i e hexpand
    exact .throw hexpand
  · refine .bind (.orError (.of_forall (fun _ => trivial) _)) fun _ => ?_
    split
    · exact .pure _
    · rename_i c hc
      exact .bind (.orError fun d d' e hrun => ⟨c, hc, _, _, d, d', hrun⟩) fun _ => .pure _

/-- The context with the index that an error gives is one of these, of which the first has this
index, and its document cannot be made. -/
def Blames (batch : Batch) (index : Nat) (contexts : List Context) : BatchError → Prop
  | .item i cause => ∃ k ctx, i = index + k ∧ contexts[k]? = some ctx ∧ batch.Unmade ctx cause
  | .io .. | .archive _ => True

theorem Blames.cons {e : BatchError} (h : batch.Blames (index + 1) contexts e) (ctx : Context) :
    batch.Blames index (ctx :: contexts) e := by
  cases e with
  | item i cause =>
    obtain ⟨k, ctx', rfl, hctx, hfails⟩ := h
    exact ⟨k + 1, ctx', by omega, hctx, hfails⟩
  | io | archive => trivial

section Files

variable {α : Type} (t : Task OsError α)

theorem failsWith_io (operation : String) :
    (t.orError (.io operation)).FailsWith (batch.Blames index contexts) :=
  .orError (.of_forall (fun _ => trivial) t)

theorem failsWith_archive : (t.orError .archive).FailsWith (batch.Blames index contexts) :=
  .orError (.of_forall (fun _ => trivial) t)

end Files

theorem failsWith_addItem (archive : Location) (progress : Progress) (path name : String) :
    (addItem archive progress path name).FailsWith (batch.Blames index contexts) :=
  .bind (failsWith_archive _) fun _ => .bind (failsWith_io _ _) fun _ =>
    .bind (failsWith_io _ _) fun _ => .pure _

theorem failsWith_addItems (batch : Batch) (directory : String) (archive : Location) (index : Nat)
    (progress : Progress) (contexts : List Context) :
    (batch.addItems directory archive index progress contexts).FailsWith
      (batch.Blames index contexts) := by
  induction contexts generalizing index progress with
  | nil => exact .pure _
  | cons ctx contexts ih =>
    intro d d' e hrun
    obtain ⟨r, d₁, hmake⟩ : ∃ r d₁, (batch.makeItem directory index ctx).runOn d = (r, d₁) :=
      ⟨_, _, rfl⟩
    rw [addItems, Task.runOn_bind_of_ok (Task.runOn_outcome hmake)] at hrun
    cases r with
    | ok item =>
      exact Task.FailsWith.bind (failsWith_addItem archive progress item.1 item.2)
        (fun progress d d' e h => (ih (index + 1) progress d d' e h).cons ctx) d₁ d' e hrun
    | error cause =>
      cases hpolicy : batch.policy with
      | abort =>
        rw [hpolicy] at hrun
        cases hrun
        exact ⟨0, ctx, rfl, rfl, failsWith_makeItem batch directory index ctx d _ cause hmake⟩
      | skip =>
        rw [hpolicy] at hrun
        exact (ih _ _ d₁ d' e hrun).cons ctx

/-- A batch blames none but a document that cannot be made. -/
theorem failsWith_write (batch : Batch) (contexts : List Context) (output : String) :
    (batch.write contexts output).FailsWith (batch.Blames 0 contexts) := by
  refine .bind (failsWith_io _ _) fun _ => ?_
  refine .withTemporaryDirectory (fun _ => trivial) fun directory =>
    .withTemporaryFile (fun _ => trivial) fun archive => ?_
  exact .bind (failsWith_addItems batch directory archive 0 {} contexts) fun _ =>
    .bind (failsWith_archive _) fun _ => .bind (failsWith_io _ _) fun _ => .pure _

end Batch

end FormLetter
