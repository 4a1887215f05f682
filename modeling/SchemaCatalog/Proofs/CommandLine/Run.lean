import SchemaCatalog.CommandLine.Run
import SchemaCatalog.Proofs.Classification.Acceptance
import SchemaCatalog.Proofs.CommandLine.ConfigChoice
import SchemaCatalog.Proofs.Outlet

/-!
# SchemaCatalog.Proofs.CommandLine.Run

A run step by step.

A run is what its steps make of each other, one `Except` for all of them (`value_runInto`): the
configuration, the schema text, the product, the file for it. Each step has a lemma that says what
the run is once the step has succeeded, in terms of what the step is about: the configuration that
is yielded (`result_of_configures`), the text that the run has (`resultWith_of_hasText`), the
grammar (`Command.product_of_clean`). Later proofs go from step to step and never open a run.

The steps do not know the outlets, which only come in at the end. What stands on the standard output
is a beginning of what would stand there if everything were taken (`stdout_runInto_prefix`), and a
run that ends well is the same run there (`runInto_of_success`).
-/

namespace SchemaCatalog.CommandLine

theorem Failure.code_ne_zero (failure : Failure) : failure.exitCode.code ≠ 0 := by
  cases failure with
  | remote error =>
    rw [exitCode]
    split <;> decide
  | _ => simp [exitCode, ExitCode.code]

/-! ## Deliveries -/

namespace Delivery

/-- What a delivery puts on the standard output. -/
def stdout : Delivery → String
  | printed text => text
  | stored _ _ _ summary => summary

/-- The files with what a delivery puts there. -/
def files (t : FileTree) : Delivery → FileTree
  | printed _ => t
  | stored _ spot text _ => t.set spot (.file text.toUTF8)

end Delivery

namespace World

variable {w : World} {o : Outlets} {a : Arguments} {c : Config} {text : String}

/-! ## Results -/

/-- What becomes of a schema text: what is to be put out, or why there is nothing. -/
def resultFrom (w : World) (a : Arguments) (c : Config) (text : String) :
    Except Failure Delivery := do
  let product ← (a.command.product w.elapsed c text).value.mapError .schema
  w.deliver (a.isColored w.environment) a.quiet a.command.output? product

/-- What becomes of a run with its configuration. -/
def resultWith (w : World) (a : Arguments) (c : Config) : Except Failure Delivery := do
  let text ← (w.schemaText c a.command.sdl?).value.result
  w.resultFrom a c text

/-- What becomes of a run. -/
def result (w : World) (a : Arguments) : Except Failure Delivery := do
  let c ← (w.configuration a.configChoice).value.mapError .config
  w.resultWith a c

/-- The requests of a run. -/
def sent (w : World) (a : Arguments) : List Http.Request :=
  match (w.configuration a.configChoice).value with
  | .error _ => []
  | .ok c => (w.schemaText c a.command.sdl?).value.requests

theorem value_runWith (w : World) (o : Outlets) (a : Arguments) (c : Config) :
    (w.runWith o a c).value = w.finish o (a.isColored w.environment)
      (w.schemaText c a.command.sdl?).value.requests (w.resultWith a c) := by
  simp only [runWith, resultWith, Logged.value_bind]
  cases (w.schemaText c a.command.sdl?).value.result with
  | error failure => rfl
  | ok text =>
    change _ = w.finish _ _ _ (w.resultFrom a c text)
    simp only [Logged.value_bind, resultFrom]
    cases (a.command.product w.elapsed c text).value with
    | error error => rfl
    | ok product => rfl

theorem value_execute (w : World) (o : Outlets) (a : Arguments) :
    (w.execute o a).value = w.finish o (a.isColored w.environment) (w.sent a) (w.result a) := by
  simp only [execute, result, sent, Logged.value_bind]
  cases (w.configuration a.configChoice).value with
  | error cause => rfl
  | ok c => exact value_runWith w o a c

theorem value_runInto {args : List String} (h : Arguments.parse args = .ok a) :
    (w.runInto o args).value =
      w.finish o (a.isColored w.environment) (w.sent a) (w.result a) := by
  rw [runInto, h]
  exact value_execute w o a

theorem value_run {args : List String} (h : Arguments.parse args = .ok a) :
    (w.run args).value =
      w.finish .endless (a.isColored w.environment) (w.sent a) (w.result a) :=
  value_runInto h

/-! ## Ends -/

section Ends

variable (w) (colored : Bool) (requests : List Http.Request)

theorem fail_endless (stdout : String) (files : FileTree) (failure : Failure) :
    Outlets.endless.fail colored requests stdout files failure =
      ⟨.exit failure.exitCode, stdout, failure.text colored, files, requests⟩ := by
  simp [Outlets.fail, Outlets.endless, Outlet.refuses, Outlet.refusal?, Outlet.textTaken]

theorem finish_error (failure : Failure) : w.finish .endless colored requests (.error failure) =
    ⟨.exit failure.exitCode, "", failure.text colored, w.files, requests⟩ :=
  fail_endless colored requests "" w.files failure

theorem finish_ok (d : Delivery) : w.finish .endless colored requests (.ok d) =
    ⟨.success, d.stdout, "", d.files w.files, requests⟩ := by
  cases d <;> rfl

/-- A failure is never taken for success, even when it cannot be told. -/
theorem fail_ne_success (o : Outlets) (stdout : String) (files : FileTree) (failure : Failure) :
    (o.fail colored requests stdout files failure).code ≠ .success := by
  rw [Outlets.fail]
  split
  · nofun
  · intro h
    exact failure.code_ne_zero (congrArg Ending.code h)

theorem finish_of_success {result : Except Failure Delivery}
    (h : (w.finish o colored requests result).code = .success) :
    w.finish o colored requests result = w.finish .endless colored requests result := by
  cases result with
  | error failure => exact absurd h (fail_ne_success colored requests o "" w.files failure)
  | ok d =>
    rw [finish_ok]
    cases d with
    | printed text =>
      cases htaken : o.stdout.refusal? text with
      | none => simp only [finish, htaken, Delivery.stdout, Delivery.files]
      | some cause =>
        simp only [finish, htaken] at h
        exact absurd h (fail_ne_success _ _ _ _ _ _)
    | stored path spot text summary =>
      cases hstored : (o.file spot).refusal? text with
      | some cause =>
        simp only [finish, hstored] at h
        exact absurd h (fail_ne_success _ _ _ _ _ _)
      | none =>
        cases htaken : o.stdout.refusal? summary with
        | some cause =>
          simp only [finish, hstored, htaken] at h
          cases h
        | none =>
          simp only [finish, hstored, htaken, Outlet.bytesTaken_of_taken hstored, Delivery.stdout,
            Delivery.files]

theorem stdout_finish_prefix (o : Outlets) (result : Except Failure Delivery) :
    (w.finish o colored requests result).stdout.toList <+:
      (w.finish .endless colored requests result).stdout.toList := by
  cases result with
  | error failure => exact List.prefix_rfl
  | ok d =>
    rw [finish_ok]
    cases d with
    | printed text =>
      have hstdout : (w.finish o colored requests (.ok (.printed text))).stdout =
          o.stdout.textTaken text := by
        cases htaken : o.stdout.refusal? text with
        | none => simp only [finish, htaken, Outlet.textTaken_of_taken htaken]
        | some cause => simp only [finish, htaken, Outlets.fail]
      rw [hstdout]
      exact o.stdout.textTaken_prefix text
    | stored path spot text summary =>
      cases hstored : (o.file spot).refusal? text with
      | some cause =>
        simp only [finish, hstored]
        exact List.nil_prefix
      | none =>
        have hstdout : (w.finish o colored requests (.ok (.stored path spot text summary))).stdout =
            o.stdout.textTaken summary := by
          cases htaken : o.stdout.refusal? summary with
          | none => simp only [finish, hstored, htaken, Outlet.textTaken_of_taken htaken]
          | some cause => simp only [finish, hstored, htaken]
        rw [hstdout]
        exact o.stdout.textTaken_prefix summary

end Ends

/-- Whatever the outlets take, nothing else stands on the standard output than where they take
everything, only less of it. -/
theorem stdout_runInto_prefix (w : World) (o : Outlets) (args : List String) :
    (w.runInto o args).value.stdout.toList <+: (w.run args).value.stdout.toList := by
  cases hparse : Arguments.parse args with
  | error halt =>
    rw [run, runInto, runInto, hparse]
    cases halt with
    | version => exact o.stdout.textTaken_prefix versionText
    | help => exact o.stdout.textTaken_prefix usageText
    | usage fault => exact List.prefix_rfl
  | ok a =>
    rw [value_runInto hparse, value_run hparse]
    exact stdout_finish_prefix w _ _ o _

/-- A run that ends well has put out everything. -/
theorem runInto_of_success {args : List String} (accepted : Arguments.parse args = .ok a)
    (h : (w.runInto o args).value.code = .success) :
    (w.runInto o args).value = (w.run args).value := by
  rw [value_runInto accepted] at h ⊢
  rw [value_run accepted]
  exact finish_of_success w _ _ h

/-! ## Configuration -/

/-- A run has a configuration. -/
def Configures (w : World) (a : Arguments) (c : Config) : Prop :=
  w.files.entry? w.cwd = some .directory ∧
    a.configChoice.Yields w.files w.cwd (ConfigChoice.pathOf w.cwd) c

theorem configuration_of_here (h : w.files.entry? w.cwd = some .directory)
    (choice : ConfigChoice) :
    w.configuration choice = choice.resolve w.files w.cwd (ConfigChoice.pathOf w.cwd) := by
  rw [configuration, h]

theorem configuration_of_gone (h : w.files.entry? w.cwd ≠ some .directory)
    (choice : ConfigChoice) : w.configuration choice = pure (.error (.noDirectory .notFound)) := by
  rw [configuration]
  split
  · rename_i hhere
    exact absurd hhere h
  · rfl

theorem configuration_eq_ok :
    (w.configuration a.configChoice).value = .ok c ↔ w.Configures a c := by
  rw [Configures, ← ConfigChoice.resolve_eq_ok]
  by_cases h : w.files.entry? w.cwd = some .directory
  · simp [configuration_of_here h, h]
  · simp [configuration_of_gone h, h]

theorem result_of_configures (h : w.Configures a c) : w.result a = w.resultWith a c := by
  rw [result, configuration_eq_ok.2 h]
  rfl

theorem Configures.unique {c' : Config} (h : w.Configures a c) (h' : w.Configures a c') :
    c = c' := by
  have hc := configuration_eq_ok.2 h
  rw [configuration_eq_ok.2 h'] at hc
  cases hc
  rfl

theorem result_of_not_configures (h : ∀ c, ¬ w.Configures a c) :
    ∃ cause, ∀ command elapsed,
      { w with elapsed }.result { a with command } = .error (.config cause) := by
  cases hconfiguration : (w.configuration a.configChoice).value with
  | error cause =>
    -- Neither the command nor the clock is seen before the configuration is there.
    refine ⟨cause, fun command elapsed => ?_⟩
    have hsame : { w with elapsed }.configuration (Arguments.configChoice { a with command }) =
        w.configuration a.configChoice := rfl
    rw [result, hsame, hconfiguration]
    rfl
  | ok c => exact absurd (configuration_eq_ok.1 hconfiguration) (h c)

/-! ## Schema text -/

/-- What the remote says about the schema of a configuration. -/
def fetched (w : World) (c : Config) : Except Remote.RemoteError String :=
  (Remote.fetchSchemaBy w.carrier (.ofConfig c) c).value.result

/-- A run has a schema text: that of the file it names, or else the deployed one. -/
inductive HasText (w : World) (a : Arguments) : String → Prop where
  | file {path : Path} {text : String} (named : a.command.sdl? = some path)
      (read : w.files.readText w.cwd path = .ok text) : HasText w a text
  | remote {c : Config} {text : String} (unnamed : a.command.sdl? = none)
      (configured : w.Configures a c) (answer : w.fetched c = .ok text) : HasText w a text

theorem resultWith_of_hasText (hc : w.Configures a c) (h : w.HasText a text) :
    w.resultWith a c = w.resultFrom a c text := by
  cases h with
  | file named read =>
    rw [resultWith, named]
    simp only [schemaText, Logged.value_pure, read]
    rfl
  | remote unnamed configured answer =>
    cases configured.unique hc
    rw [fetched] at answer
    rw [resultWith, unnamed]
    simp only [schemaText, Logged.value_bind, Logged.value_pure, answer]
    rfl

theorem resultWith_of_unread {path : Path} {cause : IoError} (named : a.command.sdl? = some path)
    (unread : w.files.readText w.cwd path = .error cause) :
    w.resultWith a c = .error (.reading path cause) := by
  rw [resultWith, named]
  simp only [schemaText, Logged.value_pure, unread]
  rfl

theorem resultWith_of_unanswered {error : Remote.RemoteError} (unnamed : a.command.sdl? = none)
    (refused : w.fetched c = .error error) : w.resultWith a c = .error (.remote error) := by
  rw [fetched] at refused
  rw [resultWith, unnamed]
  simp only [schemaText, Logged.value_bind, Logged.value_pure, refused]
  rfl

/-! ## Product and output -/

theorem deliver_to_file {colored quiet : Bool} {path : Path} {p : Product} {spot : Location}
    (h : w.files.target w.cwd path = .ok spot) :
    w.deliver colored quiet (some path) p =
      .ok (.stored path spot p.text (if quiet then "" else p.summary colored path)) := by
  rw [deliver, h]

end World

/-- A command builds a type map, so that the grammar matters. -/
def Command.classifies : Command → Bool
  | fetch _ => false
  | typeMap _ _ _ => true

theorem Command.product_of_clean {command : Command} {text : String} (elapsed : Nat) (c : Config)
    (h : command.classifies = true → (Sdl.parse text).2 = []) :
    ∃ product, (command.product elapsed c text).value = .ok product := by
  cases command with
  | fetch output => exact ⟨_, rfl⟩
  | typeMap sdl output pretty =>
    obtain ⟨m, hm, _⟩ := classify_of_clean (classifierOf c) c (h rfl)
    simp only [product, Logged.value_bind, hm]
    exact ⟨_, rfl⟩

theorem Command.product_of_faulty {command : Command} {text : String} (elapsed : Nat) (c : Config)
    (hcommand : command.classifies = true) (h : (Sdl.parse text).2 ≠ []) :
    ∃ error, (command.product elapsed c text).value = .error error := by
  cases command with
  | fetch output => cases hcommand
  | typeMap sdl output pretty =>
    simp only [product, Logged.value_bind, classify_of_faulty (classifierOf c) c h]
    exact ⟨_, rfl⟩

end SchemaCatalog.CommandLine
