import FormLetter.Proofs.Batch.Failing
import FormLetter.Proofs.CommandLine.Rendering
import FormLetter.Proofs.Json.Written

/-!
# What the status tells

A command is run once more with its failures kept apart (`perform`): input that cannot be read,
output that cannot be written, documents that cannot be made of what was read
(`exists_unmade_of_perform`). The command line makes two kinds of failures of them
(`run_eq_perform`). Its status tells files and documents apart exactly if the failure is not one
that comes from files and counts as one of documents (`tells_execute_iff`). Its output is one JSON
value in any case.
-/

namespace FormLetter

open FormLetter.Disk FormLetter.Json

namespace CommandLine

/-- Why a command failed, as the part of it that did says it. -/
inductive Cause where
  /-- The configuration, the template or the data cannot be used. -/
  | input (message : String)
  | workspace (cause : OsError)
  | save (cause : DocumentError)
  | expand (cause : TemplateError)
  | convert (target : String) (cause : ConvertError)
  | batch (cause : BatchError)
  deriving DecidableEq, Repr

namespace Cause

/-- The failure that the command line makes of it. -/
def failure : Cause → Failure
  | input message => .usage message
  | workspace cause => .usage cause.message
  | save cause => .usage cause.message
  | expand cause => .generation cause.message
  | convert _ cause => .generation cause.message
  | batch cause => .generation cause.message

/-- A document cannot be made: its template cannot be expanded, or it cannot be converted. -/
def isMaking : Cause → Bool
  | expand _ | convert .. => true
  | batch (.item _ (.template _)) | batch (.item _ (.convert _)) => true
  | _ => false

/-- Files are the cause: input that cannot be read, or output that cannot be written, also if it is
the converter that writes it. -/
def isFiles : Cause → Bool
  | input _ | workspace _ | save _ => true
  | expand _ => false
  | convert target (.io operation _) => operation == "move converted document to " ++ target
  | convert .. => false
  | batch (.item _ (.document _)) | batch (.io ..) | batch (.archive _) => true
  | batch (.item ..) => false

/-- Files are the cause, and the command line makes a failure of documents of it. -/
def isMixedUp : Cause → Bool
  | c@(convert ..) | c@(batch _) => c.isFiles
  | _ => false

end Cause

def load {α : Type} (t : Task Failure α) : Task Cause α := t.orError fun f => .input f.message

def performProduce (converter : Option Converter) (document : Package) (output : String) :
    Task Cause Unit :=
  match converter with
  | none => (document.save output).orError .save
  | some converter =>
    withTemporaryDirectory .workspace fun directory => do
      let saved := join directory "document.docx"
      (document.save saved).orError .save
      (converter.convert saved output).orError (.convert output)

def performRender (engine : Engine) (converter : Option Converter)
    (template data output : String) : Task Cause Value := do
  let template ← load (loadTemplate template)
  let ctx ← load (loadData data Context.ofValue?)
  match engine.expand template.tree ctx with
  | .error e => throw (.expand e)
  | .ok tree =>
    performProduce converter (template.withTree tree) output
    return .object (successAt output)

def performBatch (engine : Engine) (converter : Option Converter) (policy : FailurePolicy)
    (template data output : String) : Task Cause Value := do
  let template ← load (loadTemplate template)
  let contexts ← load (loadData data contextsOf?)
  let report ← (Batch.write ⟨engine, template, converter, policy⟩ contexts output).orError .batch
  return .object (successAt output ++ [("report", report.toValue)])

def performTags (engine : Engine) (template : String) : Task Cause Value := do
  let template ← load (loadTemplate template)
  let reports := engine.tags template.tree
  return .object [("valid", .bool (reports.all (·.error.isNone))),
    ("tags", .array (reports.map TagReport.toValue))]

/-- Runs a command and keeps the cause of its failure. -/
def perform (runner : Runner) (invocation : Invocation) : Task Cause Value := do
  let config ← load (loadConfig invocation.config)
  let engine : Engine := ⟨.builtin, config.layout⟩
  let office := Converter.office runner config.converter.binary config.converter.format
  let converter (wanted : Bool) : Option Converter :=
    if wanted || config.converter.enabled then some office else none
  match invocation.command with
  | .render template data output convert =>
    performRender engine (converter convert) template data output
  | .batch template data output convert skipFailures =>
    let policy := if skipFailures then .skip else config.batch.failurePolicy
    performBatch engine (converter convert) policy template data output
  | .tags template => performTags engine template

/-! ## Input -/

def Failure.IsUsage (f : Failure) : Prop := .usage f.message = f

theorem failsWith_readText (path : String) {failed : OsError → Failure}
    (h : ∀ e, (failed e).IsUsage) : (readText path failed).FailsWith Failure.IsUsage := by
  refine .bind (.orError (.of_forall h _)) fun content => ?_
  cases content.text with
  | ok text => exact .pure text
  | error e => exact .throw (h e)

theorem failsWith_loadConfig (path : Option String) :
    (loadConfig path).FailsWith Failure.IsUsage := by
  cases path with
  | none => exact .pure _
  | some path =>
    refine .bind (failsWith_readText path fun _ => rfl) fun text => ?_
    cases Config.parse? text with
    | some config => exact .pure config
    | none => exact .throw rfl

theorem failsWith_loadTemplate (path : String) :
    (loadTemplate path).FailsWith Failure.IsUsage := by
  refine .orError (.of_forall (fun e => ?_) (Package.load path))
  rfl

theorem failsWith_loadData {α : Type} (path : String) (shape? : Value → Option α) :
    (loadData path shape?).FailsWith Failure.IsUsage := by
  refine .bind (failsWith_readText path fun _ => rfl) fun text => ?_
  cases (Value.parse? text).bind shape? with
  | some a => exact .pure a
  | none => exact .throw rfl

theorem orError_load {α : Type} {t : Task Failure α} (h : t.FailsWith Failure.IsUsage) :
    (load t).orError Cause.failure = t := by
  rw [load, Task.orError_orError]
  exact Task.FailsWith.orError_eq_self h

theorem produce_eq_performProduce (converter : Option Converter) (document : Package)
    (output : String) : produce converter document output =
      (performProduce converter document output).orError Cause.failure := by
  cases converter with
  | none =>
    rw [performProduce, Task.orError_orError]
    rfl
  | some converter =>
    rw [performProduce, Task.orError_withTemporaryDirectory]
    simp only [Task.orError_bind, Task.orError_orError]
    rfl

theorem render_eq_performRender (engine : Engine) (converter : Option Converter)
    (template data output : String) : render engine converter template data output =
      (performRender engine converter template data output).orError Cause.failure := by
  rw [render_eq, performRender, Task.orError_bind, orError_load (failsWith_loadTemplate template)]
  refine congrArg _ (funext fun template => ?_)
  rw [Task.orError_bind, orError_load (failsWith_loadData data _)]
  refine congrArg _ (funext fun ctx => ?_)
  cases engine.expand template.tree ctx with
  | error e => rfl
  | ok tree =>
    simp only [Task.orError_bind, produce_eq_performProduce]
    rfl

theorem batch_eq_performBatch (engine : Engine) (converter : Option Converter)
    (policy : FailurePolicy) (template data output : String) :
    batch engine converter policy template data output =
      (performBatch engine converter policy template data output).orError Cause.failure := by
  rw [batch, performBatch, Task.orError_bind, orError_load (failsWith_loadTemplate template)]
  refine congrArg _ (funext fun template => ?_)
  rw [Task.orError_bind, orError_load (failsWith_loadData data _)]
  refine congrArg _ (funext fun contexts => ?_)
  rw [Task.orError_bind, Task.orError_orError]
  rfl

theorem tags_eq_performTags (engine : Engine) (template : String) :
    tags engine template = (performTags engine template).orError Cause.failure := by
  rw [tags, performTags, Task.orError_bind, orError_load (failsWith_loadTemplate template)]
  rfl

/-- The command line makes a failure of every cause, and changes nothing else. -/
theorem run_eq_perform (runner : Runner) (invocation : Invocation) :
    run runner invocation = (perform runner invocation).orError Cause.failure := by
  rw [run, perform, Task.orError_bind, orError_load (failsWith_loadConfig _)]
  refine congrArg _ (funext fun config => ?_)
  cases invocation.command with
  | render template data output convert => exact render_eq_performRender ..
  | batch template data output convert skipFailures => exact batch_eq_performBatch ..
  | tags template => exact tags_eq_performTags ..

/-! ## Documents that cannot be made -/

def Command.template : Command → String
  | .render template .. | .batch template .. | .tags template => template

/-- The contexts in the data of a command: one, or as many as there are, or no data at all. -/
def loadContexts : Command → Task Failure (List Context)
  | .render _ data .. => do return [← loadData data Context.ofValue?]
  | .batch _ data .. => loadData data contextsOf?
  | .tags _ => pure []

/-- What a command reads. -/
structure Inputs where
  config : Config
  template : Package
  contexts : List Context

namespace Inputs

def engine (inputs : Inputs) : Engine := ⟨.builtin, inputs.config.layout⟩

def office (inputs : Inputs) (runner : Runner) : Converter :=
  .office runner inputs.config.converter.binary inputs.config.converter.format

def FailsToExpand (inputs : Inputs) (ctx : Context) (e : TemplateError) : Prop :=
  inputs.engine.expand inputs.template.tree ctx = .error e

end Inputs

def readWith (config : Config) (command : Command) : Task Failure Inputs := do
  let template ← loadTemplate command.template
  return ⟨config, template, ← loadContexts command⟩

def readInputs (invocation : Invocation) : Task Failure Inputs := do
  let config ← loadConfig invocation.config
  readWith config invocation.command

/-- Expanding the template or converting a document fails with this cause. -/
def Cause.Unmade (runner : Runner) (inputs : Inputs) : Cause → Prop
  | expand e => ∃ ctx, inputs.contexts = [ctx] ∧ inputs.FailsToExpand ctx e
  | batch (.item i (.template e)) =>
    ∃ ctx, inputs.contexts[i]? = some ctx ∧ inputs.FailsToExpand ctx e
  | convert _ e | batch (.item _ (.convert e)) => (inputs.office runner).Fails e
  | _ => False

/-- If the cause says that a document cannot be made, then so it is. -/
def Cause.IsHonest (runner : Runner) (inputs : Inputs) (cause : Cause) : Prop :=
  cause.isMaking = true → cause.Unmade runner inputs

section Perform

variable {runner : Runner} {invocation : Invocation} {inputs : Inputs} {d d' : Disk} {cause : Cause}

theorem failsWith_performProduce {converter : Option Converter}
    (h : ∀ c ∈ converter, c = inputs.office runner) (document : Package) (output : String) :
    (performProduce converter document output).FailsWith (Cause.IsHonest runner inputs) := by
  have hsave : ∀ path : String, ((document.save path).orError Cause.save).FailsWith
      (Cause.IsHonest runner inputs) :=
    fun _ => .orError (.of_forall (fun _ hmaking => by cases hmaking) _)
  cases converter with
  | none => exact hsave output
  | some c =>
    have hworkspace : ∀ e, (Cause.workspace e).IsHonest runner inputs :=
      fun _ hmaking => by cases hmaking
    rw [performProduce]
    refine .withTemporaryDirectory hworkspace fun directory => ?_
    refine .bind (hsave _) fun _ => .orError fun d d' e hrun _ => ?_
    rw [h c rfl] at hrun
    exact ⟨_, _, d, d', hrun⟩

theorem exists_of_load_bind {α β : Type} {t : Task Failure α} {f : α → Task Cause β}
    (hmaking : cause.isMaking = true) (hrun : (load t >>= f).runOn d = (.error cause, d')) :
    ∃ a d₁, t.runOn d = (.ok a, d₁) ∧ (f a).runOn d₁ = (.error cause, d') := by
  rcases Task.runOn_bind_cases (load t) f d with ⟨a, d₁, ht, hbind⟩ | ⟨e, d₁, ht, hbind⟩
  · exact ⟨a, d₁, Task.runOn_orError_eq_ok.1 ht, hbind.symm.trans hrun⟩
  · cases hbind.symm.trans hrun
    have hinput : (load t).FailsWith fun cause => cause.isMaking = false :=
      .orError (.of_forall (fun _ => rfl) _)
    rw [hinput _ _ _ ht] at hmaking
    cases hmaking

theorem honest_batch {converter : Option Converter} {policy : FailurePolicy} {e : BatchError}
    (h : ∀ c ∈ converter, c = inputs.office runner)
    (he : (Batch.mk inputs.engine inputs.template converter policy).Blames 0 inputs.contexts e) :
    (Cause.batch e).IsHonest runner inputs := by
  intro hmaking
  cases e with
  | item i cause =>
    obtain ⟨k, ctx, rfl, hctx, hunmade⟩ := he
    rw [Nat.zero_add]
    cases cause with
    | template e => exact ⟨ctx, hctx, hunmade⟩
    | document e => cases hmaking
    | convert e =>
      obtain ⟨c, hc, hfails⟩ := hunmade
      rwa [h c hc] at hfails
  | io | archive => cases hmaking

theorem exists_unmade_of_performRender {config : Config} {converter : Option Converter}
    {template data output : String} {convert : Bool}
    (h : ∀ inputs : Inputs, inputs.config = config → ∀ c ∈ converter, c = inputs.office runner)
    (hmaking : cause.isMaking = true)
    (hrun : (performRender ⟨.builtin, config.layout⟩ converter template data output).runOn d =
      (.error cause, d')) :
    ∃ inputs d₁, (readWith config (.render template data output convert)).runOn d =
      (.ok inputs, d₁) ∧ cause.Unmade runner inputs := by
  obtain ⟨package, d₁, htemplate, hrun⟩ := exists_of_load_bind hmaking hrun
  obtain ⟨ctx, d₂, hctx, hrun⟩ := exists_of_load_bind hmaking hrun
  have hcontexts : (loadContexts (.render template data output convert)).runOn d₁ =
      (.ok [ctx], d₂) := Task.runOn_bind_of_ok hctx
  refine ⟨⟨config, package, [ctx]⟩, d₂,
    (Task.runOn_bind_of_ok htemplate).trans (Task.runOn_bind_of_ok hcontexts), ?_⟩
  split at hrun
  · rename_i e hexpand
    cases hrun
    exact ⟨ctx, rfl, hexpand⟩
  · refine Task.FailsWith.bind (failsWith_performProduce (h _ rfl) _ output) (fun _ => ?_)
      d₂ d' cause hrun hmaking
    exact .pure _

theorem exists_unmade_of_performBatch {config : Config} {converter : Option Converter}
    {policy : FailurePolicy} {template data output : String} {convert skipFailures : Bool}
    (h : ∀ inputs : Inputs, inputs.config = config → ∀ c ∈ converter, c = inputs.office runner)
    (hmaking : cause.isMaking = true)
    (hrun : (performBatch ⟨.builtin, config.layout⟩ converter policy template data output).runOn d =
      (.error cause, d')) :
    ∃ inputs d₁, (readWith config (.batch template data output convert skipFailures)).runOn d =
      (.ok inputs, d₁) ∧ cause.Unmade runner inputs := by
  obtain ⟨package, d₁, htemplate, hrun⟩ := exists_of_load_bind hmaking hrun
  obtain ⟨contexts, d₂, hcontexts, hrun⟩ := exists_of_load_bind hmaking hrun
  refine ⟨⟨config, package, contexts⟩, d₂,
    (Task.runOn_bind_of_ok htemplate).trans (Task.runOn_bind_of_ok hcontexts), ?_⟩
  let batch : Batch := ⟨⟨.builtin, config.layout⟩, package, converter, policy⟩
  have hwrite : ((batch.write contexts output).orError Cause.batch).FailsWith
      (Cause.IsHonest runner ⟨config, package, contexts⟩) :=
    .orError fun d d' e hrun =>
      honest_batch (h _ rfl) (batch.failsWith_write contexts output d d' e hrun)
  exact Task.FailsWith.bind hwrite (fun _ => .pure _) d₂ d' cause hrun hmaking

/-- If a command fails because a document cannot be made, all input was read, and of what was read
a document cannot be made. -/
theorem exists_unmade_of_perform (hmaking : cause.isMaking = true)
    (hrun : (perform runner invocation).runOn d = (.error cause, d')) :
    ∃ inputs d₁, (readInputs invocation).runOn d = (.ok inputs, d₁) ∧
      cause.Unmade runner inputs := by
  obtain ⟨path, command⟩ := invocation
  obtain ⟨config, d₁, hconfig, hrun⟩ := exists_of_load_bind hmaking hrun
  have hread : (readInputs ⟨path, command⟩).runOn d = (readWith config command).runOn d₁ :=
    Task.runOn_bind_of_ok hconfig
  have hconverter : ∀ (wanted : Bool) (inputs : Inputs), inputs.config = config →
      ∀ c ∈ (if wanted || config.converter.enabled then
          some (Converter.office runner config.converter.binary config.converter.format)
        else none), c = inputs.office runner := by
    rintro wanted inputs rfl c hc
    split at hc
    · cases hc
      rfl
    · cases hc
  rw [hread]
  cases command with
  | render template data output convert =>
    exact exists_unmade_of_performRender (hconverter convert) hmaking hrun
  | batch template data output convert skipFailures =>
    exact exists_unmade_of_performBatch (hconverter convert) hmaking hrun
  | tags template =>
    obtain ⟨package, d₂, htemplate, hrun⟩ := exists_of_load_bind hmaking hrun
    cases hrun

end Perform

/-! ## Output -/

theorem whole_tagToValue (t : TagReport) : t.toValue.Whole := by
  have hkind : t.kind.toValue.Whole := by
    cases t.kind <;> exact ⟨trivial, by simp [FieldsWhole, Value.Whole]⟩
  rw [TagReport.toValue]
  cases t.error with
  | none => exact ⟨trivial, hkind, trivial⟩
  | some e => exact ⟨trivial, hkind, trivial, trivial⟩

theorem whole_reportToValue (r : BatchReport) : r.toValue.Whole := by
  refine ⟨itemsWhole_iff.2 ?_, itemsWhole_iff.2 ?_, trivial⟩
  · intro v hv
    obtain ⟨name, -, rfl⟩ := List.mem_map.1 hv
    trivial
  · intro v hv
    obtain ⟨skipped, -, rfl⟩ := List.mem_map.1 hv
    exact ⟨trivial, trivial, trivial⟩

theorem whole_tags (reports : List TagReport) : Value.Whole (.object
    [("valid", .bool (reports.all (·.error.isNone))),
      ("tags", .array (reports.map TagReport.toValue))]) := by
  refine ⟨trivial, itemsWhole_iff.2 fun v hv => ?_, trivial⟩
  obtain ⟨t, -, rfl⟩ := List.mem_map.1 hv
  exact whole_tagToValue t

theorem yields_perform (runner : Runner) (invocation : Invocation) :
    (perform runner invocation).Yields Value.Whole := by
  refine .bind _ fun config => ?_
  cases invocation.command with
  | render template data output convert =>
    refine .bind _ fun template => .bind _ fun ctx => ?_
    cases Engine.expand ⟨.builtin, config.layout⟩ template.tree ctx with
    | error e => exact .throw _
    | ok tree => exact .bind _ fun _ => .pure ⟨trivial, trivial, trivial⟩
  | batch template data output convert skipFailures =>
    refine .bind _ fun template => .bind _ fun contexts => .bind _ fun report => .pure ?_
    exact ⟨trivial, trivial, whole_reportToValue report, trivial⟩
  | tags template => exact .bind _ fun template => .pure (whole_tags _)

/-- The output of a command: its value, or why it failed. -/
def Reports (output : String) : Except Cause Value → Prop
  | .ok v => v.Whole ∧ Syntax.parse? output.toList = some v.toSyntax
  | .error cause => Value.parse? output =
    some (.object [("success", .bool false), ("error", .text cause.failure.message)])

theorem reports_of (r : Except Cause Value) (h : ∀ v, r = .ok v → v.Whole) :
    Reports (Result.of (r.mapError Cause.failure)).output r := by
  have hlayout : ∀ c ∈ ['\n'], isLayout c = true := List.forall_mem_singleton.2 rfl
  cases r with
  | ok v =>
    refine ⟨h v rfl, ?_⟩
    change Syntax.parse? (v.pretty ++ "\n").toList = _
    rw [String.toList_append]
    exact Syntax.parse?_pretty hlayout (h v rfl)
  | error cause =>
    refine Value.parse?_compact hlayout ?_ ?_
    · exact ⟨trivial, trivial, trivial⟩
    · exact ⟨⟨trivial, trivial, trivial⟩, by simp [Fields.names]⟩

variable {runner : Runner} {arguments : List String} {invocation : Invocation} {disk disk' : Disk}
  {r : Except Cause Value} {cause : Cause}

/-- A status tells how a command ended: it is 0 for a success and for nothing else, 2 only if a
document cannot be made of what was read, and 1 if files are the cause. -/
structure Tells (runner : Runner) (invocation : Invocation) (disk : Disk) (r : Except Cause Value)
    (status : Nat) : Prop where
  success : status = 0 ↔ r.isOk = true
  making : status = 2 → ∃ cause inputs disk', r = .error cause ∧
    (readInputs invocation).runOn disk = (.ok inputs, disk') ∧ cause.Unmade runner inputs
  files : ∀ cause, r = .error cause → cause.isFiles = true → status = 1

theorem tells_one : Tells runner invocation disk (.error cause) 1 where
  success := ⟨fun h => absurd h (by decide), fun h => absurd h Bool.false_ne_true⟩
  making h := absurd h (by decide)
  files _ _ _ := rfl

theorem not_tells_two (h : cause.isFiles = true) :
    ¬Tells runner invocation disk (.error cause) 2 := fun htells =>
  absurd (htells.files cause rfl h) (by decide)

theorem tells_two (hr : (perform runner invocation).runOn disk = (.error cause, disk'))
    (hmaking : cause.isMaking = true) (hfiles : cause.isFiles = false) :
    Tells runner invocation disk (.error cause) 2 := by
  refine ⟨⟨fun h => absurd h (by decide), fun h => absurd h Bool.false_ne_true⟩, fun _ => ?_, ?_⟩
  · obtain ⟨inputs, d, hread, hunmade⟩ := exists_unmade_of_perform hmaking hr
    exact ⟨cause, inputs, d, rfl, hread, hunmade⟩
  · rintro _ ⟨⟩ h
    rw [hfiles] at h
    cases h

theorem isMaking_batch (e : BatchError) : (Cause.batch e).isMaking = !(Cause.batch e).isFiles := by
  cases e with
  | item i cause => cases cause <;> rfl
  | io | archive => rfl

/-- A failure is told apart unless it is mixed up. -/
theorem tells_failure_iff (hr : (perform runner invocation).runOn disk = (.error cause, disk')) :
    Tells runner invocation disk (.error cause) cause.failure.status ↔ cause.isMixedUp = false := by
  -- a failure of documents is one of files or not, and only if not it is told apart
  have htwo : (cause.isFiles = false → cause.isMaking = true) →
      (Tells runner invocation disk (.error cause) 2 ↔ cause.isFiles = false) := fun hmaking =>
    ⟨fun h => Bool.eq_false_iff.2 fun hfiles => not_tells_two hfiles h,
      fun h => tells_two hr (hmaking h) h⟩
  cases cause with
  | input | workspace | save => exact iff_of_true tells_one rfl
  | expand => exact iff_of_true (tells_two hr rfl rfl) rfl
  | convert => exact htwo fun _ => rfl
  | batch e => exact htwo fun h => by rw [isMaking_batch, h, Bool.not_false]

theorem tells_of_iff (hr : (perform runner invocation).runOn disk = (r, disk')) :
    Tells runner invocation disk r (Result.of (r.mapError Cause.failure)).status ↔
      ∀ cause, r = .error cause → cause.isMixedUp = false := by
  cases r with
  | ok v =>
    refine ⟨fun _ _ h => ?_, fun _ => ⟨⟨fun _ => rfl, fun _ => rfl⟩, fun h => ?_, fun _ h => ?_⟩⟩
    all_goals cases h
  | error cause =>
    refine (tells_failure_iff hr).trans ⟨?_, fun h => h cause rfl⟩
    rintro h _ ⟨⟩
    exact h

/-- The status of every command tells how it ended, unless files are the cause and the command line
makes a failure of documents of it. The output is one JSON value. -/
theorem tells_execute_iff (h : readArguments arguments = .ok invocation)
    (hr : (perform runner invocation).runOn disk = (r, disk')) :
    (execute runner arguments disk).2 = disk' ∧
      Reports (execute runner arguments disk).1.output r ∧
      (Tells runner invocation disk r (execute runner arguments disk).1.status ↔
        ∀ cause, r = .error cause → cause.isMixedUp = false) := by
  have hrun : (run runner invocation).runOn disk = (r.mapError Cause.failure, disk') := by
    rw [run_eq_perform, Task.runOn_orError _ hr]
  have hexecute : execute runner arguments disk = (.of (r.mapError Cause.failure), disk') := by
    rw [execute, h]
    simp only
    rw [← Task.runOn, hrun]
  rw [hexecute]
  exact ⟨rfl, reports_of r fun v hv => yields_perform _ _ _ _ _ (hv ▸ hr), tells_of_iff hr⟩

/-- A home with two templates, data for them, and a file that is named as a directory might be. -/
def shelf : Disk where
  items := [(["tmp"], .directory), (["home"], .directory),
    (["home", "letter.docx"],
      .file (.archive [⟨Package.bodyPart, .deflated, .ofText "<p/>"⟩]) false),
    (["home", "loud.docx"],
      .file (.archive [⟨Package.bodyPart, .deflated,
        .ofText "<w:p><w:t>\x7bshout $name\x7d</w:t></w:p>"⟩]) false),
    (["home", "one.json"], .file (.ofText "\x7b\x7d") false),
    (["home", "all.json"], .file (.ofText "[\x7b\x7d]") false),
    (["home", "out"], .file (.ofText "") false)]
  working := ["home"]
  temporary := ["tmp"]

def noPrograms : Runner := fun _ _ => throw .notFound

/-- A filter that is unknown makes a document that cannot be made. -/
theorem loud_status :
    let invocation : Invocation := ⟨none, .render "loud.docx" "one.json" "loud.pdf" false⟩
    ∃ disk', (perform noPrograms invocation).runOn shelf =
        (.error (.expand (.unknownFilter "shout")), disk') ∧
      Tells noPrograms invocation shelf (.error (.expand (.unknownFilter "shout")))
        (execute noPrograms
          ["render", "-t", "loud.docx", "--data=one.json", "-o", "loud.pdf"] shelf).1.status := by
  intro invocation
  have hcause : Except.error? ((perform noPrograms invocation).runOn shelf).1 =
      some (.expand (.unknownFilter "shout")) := by decide +kernel
  have hr : (perform noPrograms invocation).runOn shelf = (_, _) :=
    Prod.ext (Except.error?_eq_some_iff.1 hcause) rfl
  have harguments : readArguments ["render", "-t", "loud.docx", "--data=one.json", "-o",
      "loud.pdf"] = .ok invocation := by decide +kernel
  refine ⟨_, hr, (tells_execute_iff harguments hr).2.2.2 ?_⟩
  rintro _ ⟨⟩
  rfl

/-- The directory of an archive cannot be made, and the status says that a document cannot. -/
theorem blocked_status :
    let arguments := ["batch", "-t", "letter.docx", "-d", "all.json", "-o", "out/letters.zip"]
    let invocation : Invocation :=
      ⟨none, .batch "letter.docx" "all.json" "out/letters.zip" false false⟩
    let cause : Cause := .batch (.io "create directory out" .alreadyExists)
    readArguments arguments = .ok invocation ∧
      (∃ disk', (perform noPrograms invocation).runOn shelf = (.error cause, disk')) ∧
      (execute noPrograms arguments shelf).1.status = 2 ∧
      ¬Tells noPrograms invocation shelf (.error cause)
        (execute noPrograms arguments shelf).1.status := by
  intro arguments invocation cause
  have hcause : Except.error? ((perform noPrograms invocation).runOn shelf).1 = some cause := by
    decide +kernel
  have hstatus : (execute noPrograms arguments shelf).1.status = 2 := by decide +kernel
  refine ⟨by decide +kernel, ⟨_, Prod.ext (Except.error?_eq_some_iff.1 hcause) rfl⟩, hstatus, ?_⟩
  rw [hstatus]
  exact not_tells_two rfl

end CommandLine

end FormLetter
