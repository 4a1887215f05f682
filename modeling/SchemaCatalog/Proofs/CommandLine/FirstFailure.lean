import Mathlib.Order.WellFounded
import SchemaCatalog.Proofs.CommandLine.Output

/-!
# SchemaCatalog.Proofs.CommandLine.FirstFailure

The step that decides how a run ends.

Each step fails for reasons of its own, which are said here without a word about the run: a file
that cannot be written fails its step even when an earlier one has failed already. The first
step that fails gives the code, and what has been put out before it is what remains
(`endsAt_of_failsFirst`); a run that no step fails ends well (`success_of_passes`). Both go along
the steps: what an earlier step leaves, a configuration or a text, is there because that step does
not fail.

Up to the open file nothing has been put out. Then the outlets come in: they can take a part of the
result, or all of it and a part of what is said about it, and that is there in the end. An error
output that does not take the message of an earlier step makes a panic of the failure.
-/

namespace SchemaCatalog.CommandLine

/-- The steps of a run that can fail, in their order. -/
inductive Step where
  /-- Finding and reading the configuration. -/
  | config
  /-- Reading the schema file. -/
  | sdlFile
  /-- Fetching the deployed schema. -/
  | remote
  | grammar
  /-- Opening the output file. -/
  | opening
  /-- Writing the result to the open file or to the standard output. -/
  | writing
  /-- Saying what is in the file. -/
  | summary
deriving DecidableEq, Repr

namespace Step

def rank : Step → Nat
  | config => 0
  | sdlFile => 1
  | remote => 2
  | grammar => 3
  | opening => 4
  | writing => 5
  | summary => 6

/-- The program tells of the failure itself, before it ends. -/
def isTold : Step → Bool
  | config | sdlFile | remote | grammar => true
  | opening | writing | summary => false

end Step

/-- What is on the standard output and in the files in the end. -/
structure Remains where
  stdout : String
  files : FileTree

def Outcome.remains (o : Outcome) : Remains := ⟨o.stdout, o.files⟩

namespace World

variable {w : World} {o : Outlets} {a : Arguments} {c : Config} {step : Step} {code : Nat}
  {left : Remains}

/-- A step of a run fails, with the code for that and what remains if it is the first one. -/
inductive FailsWith (w : World) (o : Outlets) (a : Arguments) : Step → Nat → Remains → Prop where
  | config (unconfigured : ∀ c, ¬ w.Configures a c) : FailsWith w o a .config 2 ⟨"", w.files⟩
  | sdlFile {path : Path} (named : a.command.sdl? = some path)
      (unread : ∀ text, w.files.readText w.cwd path ≠ .ok text) :
      FailsWith w o a .sdlFile 1 ⟨"", w.files⟩
  | notDeployed {c : Config} {error : Remote.RemoteError} (unnamed : a.command.sdl? = none)
      (configured : w.Configures a c) (refused : w.fetched c = .error error)
      (recoverable : error.recoverable = true) : FailsWith w o a .remote 3 ⟨"", w.files⟩
  | remote {c : Config} {error : Remote.RemoteError} (unnamed : a.command.sdl? = none)
      (configured : w.Configures a c) (refused : w.fetched c = .error error)
      (final : error.recoverable = false) : FailsWith w o a .remote 4 ⟨"", w.files⟩
  | grammar {text : String} (classifies : a.command.classifies = true) (given : w.HasText a text)
      (faulty : (Sdl.parse text).2 ≠ []) : FailsWith w o a .grammar 5 ⟨"", w.files⟩
  | opening {path : Path} (named : a.command.output? = some path)
      (blocked : ∀ spot, w.files.target w.cwd path ≠ .ok spot) :
      FailsWith w o a .opening 1 ⟨"", w.files⟩
  | writing {c : Config} {text : String} {path : Path} {spot : Location}
      (output : w.HasOutput a c text) (named : a.command.output? = some path)
      (place : w.files.target w.cwd path = .ok spot)
      (refused : (o.file spot).refuses text = true) :
      FailsWith w o a .writing 1 ⟨"", w.files.set spot (.file ((o.file spot).bytesTaken text))⟩
  | printing {c : Config} {text : String} (output : w.HasOutput a c text)
      (unnamed : a.command.output? = none)
      (refused : o.stdout.refuses (withLineEnd text) = true) :
      FailsWith w o a .writing 1 ⟨o.stdout.textTaken (withLineEnd text), w.files⟩
  | summary {c : Config} {text said : String} {path : Path} {spot : Location}
      (output : w.HasOutput a c text) (named : a.command.output? = some path)
      (place : w.files.target w.cwd path = .ok spot) (loud : a.quiet = false)
      (tells : a.command.Summary c w.elapsed (a.isColored w.environment) path text said)
      (refused : o.stdout.refuses said = true) :
      FailsWith w o a .summary 101
        ⟨o.stdout.textTaken said, w.files.set spot (.file text.toUTF8)⟩

/-- A step of a run does not fail. -/
def Passes (w : World) (o : Outlets) (a : Arguments) (step : Step) : Prop :=
  ∀ code left, ¬ w.FailsWith o a step code left

/-- A step fails and none before it does. -/
def FailsFirst (w : World) (o : Outlets) (a : Arguments) (step : Step) (code : Nat)
    (left : Remains) : Prop :=
  w.FailsWith o a step code left ∧ ∀ earlier, earlier.rank < step.rank → w.Passes o a earlier

theorem FailsWith.code_ne_zero (h : w.FailsWith o a step code left) : code ≠ 0 := by
  cases h <;> decide

/-- Up to the open file nothing has been put out. -/
theorem FailsWith.nothing_put (h : w.FailsWith o a step code left)
    (hrank : step.rank ≤ Step.opening.rank) : left = ⟨"", w.files⟩ := by
  cases h with
  | config | sdlFile | notDeployed | remote | grammar | opening => rfl
  | writing | printing | summary => exact absurd hrank (by decide)

theorem exists_failsFirst (h : w.FailsWith o a step code left) :
    ∃ step code left, w.FailsFirst o a step code left := by
  -- The first one is the least by rank among those that fail.
  obtain ⟨first, ⟨code', left', hfails⟩, hleast⟩ :=
    (measure Step.rank).wf.has_min {step | ∃ code left, w.FailsWith o a step code left}
      ⟨step, code, left, h⟩
  refine ⟨first, code', left', hfails, fun earlier hlt code'' left'' hearlier => ?_⟩
  exact hleast earlier ⟨code'', left'', hearlier⟩ hlt

/-! ## What a step leaves when it does not fail -/

theorem configures_of_passes (h : w.Passes o a .config) : ∃ c, w.Configures a c := by
  by_contra hnone
  exact h _ _ (.config fun c hc => hnone ⟨c, hc⟩)

theorem hasText_of_passes (hc : w.Configures a c) (hfile : w.Passes o a .sdlFile)
    (hremote : w.Passes o a .remote) : ∃ text, w.HasText a text := by
  cases hsdl : a.command.sdl? with
  | some path =>
    cases hread : w.files.readText w.cwd path with
    | ok text => exact ⟨text, .file hsdl hread⟩
    | error cause => exact absurd (.sdlFile hsdl (by simp [hread])) (hfile _ _)
  | none =>
    cases hanswer : w.fetched c with
    | ok text => exact ⟨text, .remote hsdl hc hanswer⟩
    | error error =>
      cases hrecoverable : error.recoverable with
      | true => exact absurd (.notDeployed hsdl hc hanswer hrecoverable) (hremote _ _)
      | false => exact absurd (.remote hsdl hc hanswer hrecoverable) (hremote _ _)

theorem clean_of_passes {text : String} (given : w.HasText a text) (h : w.Passes o a .grammar)
    (hcommand : a.command.classifies = true) : (Sdl.parse text).2 = [] := by
  by_contra faulty
  exact h _ _ (.grammar hcommand given faulty)

/-- Once the grammar has passed, only the place can be missing. -/
theorem product_of_passes (h : ∀ earlier, earlier.rank ≤ Step.grammar.rank → w.Passes o a earlier) :
    ∃ c text p, w.Configures a c ∧ w.HasText a text ∧
      (a.command.product w.elapsed c text).value = .ok p := by
  obtain ⟨c, hc⟩ := configures_of_passes (h .config (by decide))
  obtain ⟨text, htext⟩ :=
    hasText_of_passes hc (h .sdlFile (by decide)) (h .remote (by decide))
  obtain ⟨p, hp⟩ :=
    Command.product_of_clean w.elapsed c (clean_of_passes htext (h .grammar (by decide)))
  exact ⟨c, text, p, hc, htext, hp⟩

theorem hasOutput_of_passes
    (h : ∀ earlier, earlier.rank ≤ Step.opening.rank → w.Passes o a earlier) :
    ∃ c text, w.HasOutput a c text := by
  obtain ⟨c, sdl, p, hc, hsdl, hp⟩ :=
    product_of_passes fun earlier hle => h earlier (hle.trans (by decide))
  refine ⟨c, p.text, hc, ⟨sdl, hsdl, Command.writes_of_product hp⟩, fun path hpath => ?_⟩
  by_contra hnone
  exact h .opening le_rfl _ _ (.opening hpath fun spot hspot => hnone ⟨spot, hspot⟩)

theorem taken_of_passes {text : String} {path : Path} {spot : Location}
    (output : w.HasOutput a c text) (named : a.command.output? = some path)
    (place : w.files.target w.cwd path = .ok spot) (h : w.Passes o a .writing) :
    (o.file spot).refusal? text = none :=
  Outlet.not_refuses_iff.1 fun refused => h _ _ (.writing output named place refused)

/-! ## Steps that decide -/

theorem deliver_of_blocked {path : Path} (colored quiet : Bool) (p : Product)
    (h : ∀ spot, w.files.target w.cwd path ≠ .ok spot) :
    ∃ cause, w.deliver colored quiet (some path) p = .error (.writing path cause) := by
  cases htarget : w.files.target w.cwd path with
  | ok spot => exact absurd htarget (h spot)
  | error cause =>
    rw [deliver, htarget]
    exact ⟨cause, rfl⟩

/-- What becomes of a run whose first failure comes before anything is put out. -/
theorem result_of_failsFirst (h : w.FailsFirst o a step code left)
    (hrank : step.rank ≤ Step.opening.rank) :
    ∃ failure, w.result a = .error failure ∧ failure.exitCode.code = code ∧
      failure.isTold = step.isTold := by
  -- The steps before the one that fails have left what it starts from.
  obtain ⟨hfails, hearlier⟩ := h
  cases hfails with
  | config unconfigured =>
    obtain ⟨cause, hcause⟩ := result_of_not_configures unconfigured
    exact ⟨_, hcause a.command w.elapsed, rfl, rfl⟩
  | @sdlFile path named unread =>
    obtain ⟨c, hc⟩ := configures_of_passes (hearlier .config (by decide))
    cases hread : w.files.readText w.cwd path with
    | ok text => exact absurd hread (unread text)
    | error cause =>
      refine ⟨.reading path cause, ?_, rfl, rfl⟩
      rw [result_of_configures hc, resultWith_of_unread named hread]
  | @notDeployed c error unnamed configured refused recoverable =>
    refine ⟨.remote error, ?_, ?_, rfl⟩
    · rw [result_of_configures configured, resultWith_of_unanswered unnamed refused]
    · rw [Failure.exitCode, if_pos recoverable]
      rfl
  | @remote c error unnamed configured refused final =>
    refine ⟨.remote error, ?_, ?_, rfl⟩
    · rw [result_of_configures configured, resultWith_of_unanswered unnamed refused]
    · rw [Failure.exitCode, if_neg (by simp [final])]
      rfl
  | grammar classifies given faulty =>
    obtain ⟨c, hc⟩ := configures_of_passes (hearlier .config (by decide))
    obtain ⟨error, herror⟩ := Command.product_of_faulty w.elapsed c classifies faulty
    refine ⟨.schema error, ?_, rfl, rfl⟩
    rw [result_of_configures hc, resultWith_of_hasText hc given, resultFrom, herror]
    rfl
  | @opening path named blocked =>
    obtain ⟨c, text, p, hc, htext, hp⟩ :=
      product_of_passes fun earlier hle => hearlier earlier (Nat.lt_succ_of_le hle)
    obtain ⟨cause, hcause⟩ := deliver_of_blocked (a.isColored w.environment) a.quiet p blocked
    refine ⟨.writing path cause, ?_, rfl, rfl⟩
    rw [result_of_configures hc, resultWith_of_hasText hc htext, resultFrom, hp, named]
    exact hcause
  | writing | printing | summary => exact absurd hrank (by decide)

end World

/-! ## Messages -/

theorem append_newline_ne_empty (text : String) : text ++ "\n" ≠ "" := by
  intro h
  have hlength := congrArg String.length h
  simp at hlength

theorem Failure.text_ne_empty (colored : Bool) (failure : Failure) : failure.text colored ≠ "" := by
  cases failure with
  | config cause => exact append_newline_ne_empty _
  | reading path cause => exact append_newline_ne_empty _
  | remote error =>
    rw [text]
    split <;> exact append_newline_ne_empty _
  | schema error => exact append_newline_ne_empty _
  | writing path cause => exact append_newline_ne_empty _
  | printing cause => exact append_newline_ne_empty _

/-- The counts in a summary are those of one type map, so there is one summary. -/
theorem Command.Summary.unique {command : Command} {c : Config} {elapsed : Nat} {colored : Bool}
    {path : Path} {text said said' : String}
    (h : command.Summary c elapsed colored path text said)
    (h' : command.Summary c elapsed colored path text said') : said' = said := by
  cases h with
  | fetch =>
    cases h'
    rfl
  | typeMap held =>
    cases h' with
    | typeMap held' =>
      rw [held, Option.some.injEq] at held'
      rw [held']

/-- A run ends at a step: this code, this on the standard output and in the files, and a message on
the error output as far as it is taken there. A step that tells of its failure needs all of it to be
taken, or else there is a panic. -/
structure Outlets.EndsAt (o : Outlets) (step : Step) (code : Nat) (left : Remains)
    (outcome : Outcome) : Prop where
  remains : outcome.remains = left
  told : ∃ message, message ≠ "" ∧ outcome.stderr = o.stderr.textTaken message ∧
    outcome.code.code = if step.isTold && o.stderr.refuses message then 101 else code

theorem Outlets.EndsAt.code_ne_zero {o : Outlets} {step : Step} {code : Nat} {left : Remains}
    {outcome : Outcome} (h : o.EndsAt step code left outcome) (hcode : code ≠ 0) :
    outcome.code.code ≠ 0 := by
  obtain ⟨message, _, _, hends⟩ := h.told
  rw [hends]
  split
  · decide
  · exact hcode

theorem Outlets.endsAt_fail {o : Outlets} {step : Step} {code : Nat} {failure : Failure}
    (hcode : failure.exitCode.code = code) (htold : failure.isTold = step.isTold) (colored : Bool)
    (requests : List Http.Request) (stdout : String) (files : FileTree) :
    o.EndsAt step code ⟨stdout, files⟩ (o.fail colored requests stdout files failure) := by
  refine ⟨rfl, failure.text colored, failure.text_ne_empty colored, rfl, ?_⟩
  rw [Outlets.fail, ← htold, ← hcode]
  simp only
  split <;> rfl

namespace World

variable {w : World} {o : Outlets} {a : Arguments} {step : Step} {code : Nat} {left : Remains}

/-! ## Runs -/

theorem endsAt_of_failsFirst (h : w.FailsFirst o a step code left) (requests : List Http.Request) :
    o.EndsAt step code left
      (w.finish o (a.isColored w.environment) requests (w.result a)) := by
  by_cases hrank : step.rank ≤ Step.opening.rank
  · obtain ⟨failure, hresult, hcode, htold⟩ := result_of_failsFirst h hrank
    rw [hresult, h.1.nothing_put hrank]
    exact Outlets.endsAt_fail hcode htold _ _ _ _
  obtain ⟨hfails, hearlier⟩ := h
  -- Something is put out, and an outlet does not take all of it.
  cases hfails with
  | config | sdlFile | notDeployed | remote | grammar | opening => exact absurd (by decide) hrank
  | writing output named place refused =>
    obtain ⟨p, rfl, _, hresult⟩ := result_of_hasOutput output
    obtain ⟨cause, hrefusal⟩ := Outlet.refuses_eq_true.1 refused
    rw [hresult, named, deliver_to_file place]
    simp only [finish, hrefusal]
    apply Outlets.endsAt_fail
    all_goals rfl
  | printing output unnamed refused =>
    obtain ⟨p, rfl, _, hresult⟩ := result_of_hasOutput output
    obtain ⟨cause, hrefusal⟩ := Outlet.refuses_eq_true.1 refused
    rw [hresult, unnamed]
    simp only [deliver, finish, hrefusal]
    apply Outlets.endsAt_fail
    all_goals rfl
  | summary output named place loud tells refused =>
    obtain ⟨p, rfl, hsummary, hresult⟩ := result_of_hasOutput output
    obtain rfl := (hsummary _ _).unique tells
    obtain ⟨cause, hrefusal⟩ := Outlet.refuses_eq_true.1 refused
    have htaken := taken_of_passes output named place (hearlier .writing (by decide))
    rw [hresult, named, deliver_to_file place, loud]
    simp only [finish, htaken, Outlet.bytesTaken_of_taken htaken, Bool.false_eq_true, if_false,
      hrefusal]
    exact ⟨rfl, panicText cause, append_newline_ne_empty _, rfl, rfl⟩

theorem success_of_passes (h : ∀ step, w.Passes o a step) (requests : List Http.Request) :
    (w.finish o (a.isColored w.environment) requests (w.result a)).code = .success := by
  obtain ⟨c, text, output⟩ := hasOutput_of_passes fun step _ => h step
  obtain ⟨p, rfl, hsummary, hresult⟩ := result_of_hasOutput output
  rw [hresult]
  cases houtput : a.command.output? with
  | none =>
    have htaken : o.stdout.refusal? (withLineEnd p.text) = none :=
      Outlet.not_refuses_iff.1 fun refused =>
        h .writing _ _ (.printing output houtput refused)
    simp only [deliver, finish, htaken]
  | some path =>
    obtain ⟨spot, hspot⟩ := output.place path houtput
    have htaken := taken_of_passes output houtput hspot (h .writing)
    have hsaid : o.stdout.refusal?
        (if a.quiet then "" else p.summary (a.isColored w.environment) path) = none := by
      cases hquiet : a.quiet with
      | true => exact Outlet.refusal?_empty o.stdout
      | false =>
        exact Outlet.not_refuses_iff.1 fun refused => h .summary _ _
          (.summary output houtput hspot hquiet (hsummary _ path) refused)
    rw [deliver_to_file hspot]
    simp only [finish, htaken, hsaid]

/-- Where everything is taken, the outlets fail no step. -/
theorem FailsWith.rank_le_opening (h : w.FailsWith .endless a step code left) :
    step.rank ≤ Step.opening.rank := by
  cases h with
  | config | sdlFile | notDeployed | remote | grammar | opening => decide
  | writing _ _ _ refused | printing _ _ refused | summary _ _ _ _ _ refused => cases refused

/-- For every command line that is accepted and all outlets, the first step that fails gives the
code, and the code is zero when no step fails, and only then. Up to the open file a run that fails
leaves a message and nothing else, and where everything is taken it always does. -/
theorem run_ends_at_first_failure (w : World) (o : Outlets) (args : List String) {a : Arguments}
    (accepted : Arguments.parse args = .ok a) :
    (∀ step code left, w.FailsFirst o a step code left →
      o.EndsAt step code left (w.runInto o args).value ∧
        (step.rank ≤ Step.opening.rank → left = ⟨"", w.files⟩)) ∧
    ((w.runInto o args).value.code.code = 0 ↔ ∀ step, w.Passes o a step) ∧
    ((w.run args).value.code.code ≠ 0 →
      (w.run args).value.stdout = "" ∧ (w.run args).value.stderr ≠ "" ∧
        (w.run args).value.files = w.files) := by
  have hends : ∀ {o step code left}, w.FailsFirst o a step code left →
      o.EndsAt step code left (w.runInto o args).value := by
    intro o step code left h
    rw [value_runInto accepted]
    exact endsAt_of_failsFirst h _
  have hzero : ∀ {o : Outlets}, (∀ step, w.Passes o a step) →
      (w.runInto o args).value.code.code = 0 := by
    intro o h
    rw [value_runInto accepted, success_of_passes h]
    rfl
  refine ⟨fun step code left h => ⟨hends h, h.1.nothing_put⟩,
    ⟨fun hcode step code left h => ?_, hzero⟩, fun hne => ?_⟩
  · obtain ⟨first, code', left', hfirst⟩ := exists_failsFirst h
    exact (hends hfirst).code_ne_zero hfirst.1.code_ne_zero hcode
  · obtain ⟨step, code, left, h⟩ : ∃ step code left, w.FailsWith .endless a step code left := by
      by_contra hnone
      exact hne (hzero fun step code left h => hnone ⟨step, code, left, h⟩)
    obtain ⟨first, code', left', hfirst⟩ := exists_failsFirst h
    obtain ⟨hremains, message, hmessage, hstderr, _⟩ := hends hfirst
    rw [hfirst.1.nothing_put hfirst.1.rank_le_opening, Outcome.remains, Remains.mk.injEq]
      at hremains
    exact ⟨hremains.1, hstderr ▸ hmessage, hremains.2⟩

/-- A project with a configuration and a schema file. -/
def projectWith (sdl : String) : World where
  files := ⟨[(["p"], .directory), (["p", "s"], .file sdl.toUTF8),
    (["p", ".typemaprc.json"], .file "\x7b\"projectId\":\"p\",\"dataset\":\"d\"\x7d".toUTF8)]⟩
  cwd := ["p"]
  environment := []
  server := fun _ _ => none
  elapsed := 0

/-- The type map of the schema file goes to a file. -/
def typeMapTo (output : String) : Arguments :=
  ⟨none, none, none, false, false, false, .typeMap (some ⟨"s"⟩) (some ⟨output⟩) false⟩

/-- With a configuration and a schema file nothing can fail before the grammar. -/
theorem projectWith_passes {sdl output : String}
    (configured : (projectWith sdl).Configures (typeMapTo output) c)
    (read : (projectWith sdl).files.readText ["p"] ⟨"s"⟩ = .ok sdl)
    (hrank : step.rank < Step.grammar.rank) :
    (projectWith sdl).Passes o (typeMapTo output) step := by
  intro code left h
  cases h with
  | config unconfigured => exact unconfigured c configured
  | sdlFile named unread =>
    cases named
    exact unread sdl read
  | notDeployed unnamed | remote unnamed => cases unnamed
  | grammar | opening | writing | printing | summary => exact absurd hrank (by decide)

/-- The schema breaks the grammar. The output cannot be opened either, but that is a later step. -/
theorem projectWith_ends_at_grammar :
    (projectWith "type \x7b").FailsFirst .endless (typeMapTo "no/o") .grammar 5
        ⟨"", (projectWith "type \x7b").files⟩ ∧
      (projectWith "type \x7b").FailsWith .endless (typeMapTo "no/o") .opening 1
        ⟨"", (projectWith "type \x7b").files⟩ ∧
      Outlets.endless.EndsAt .grammar 5 ⟨"", (projectWith "type \x7b").files⟩
        ((projectWith "type \x7b").run ["typemap", "--sdl", "s", "-o", "no/o"]).value := by
  have configured : (projectWith "type \x7b").Configures (typeMapTo "no/o")
      ⟨"p", "d", "default", none, none, none, none⟩ :=
    ⟨rfl, ConfigChoice.resolve_eq_ok.1 (by decide +kernel)⟩
  have read : (projectWith "type \x7b").files.readText ["p"] ⟨"s"⟩ = .ok "type \x7b" := by
    decide +kernel
  have hblocked : (projectWith "type \x7b").files.target ["p"] ⟨"no/o"⟩ = .error .notFound := rfl
  have hfirst : (projectWith "type \x7b").FailsFirst .endless (typeMapTo "no/o") .grammar 5
      ⟨"", (projectWith "type \x7b").files⟩ :=
    ⟨.grammar rfl (.file rfl read) (by decide +kernel), fun _ => projectWith_passes configured read⟩
  refine ⟨hfirst, .opening rfl fun spot hspot => ?_, ?_⟩
  · cases hblocked.symm.trans hspot
  · exact ((run_ends_at_first_failure (projectWith "type \x7b") .endless
      ["typemap", "--sdl", "s", "-o", "no/o"] rfl).1 _ _ _ hfirst).1

/-- With a schema that keeps to the grammar and a place for the file nothing can fail before the
output. -/
theorem projectWith_sound {sdl output : String} {spot : Location}
    (configured : (projectWith sdl).Configures (typeMapTo output) c)
    (read : (projectWith sdl).files.readText ["p"] ⟨"s"⟩ = .ok sdl) (clean : (Sdl.parse sdl).2 = [])
    (place : (projectWith sdl).files.target ["p"] ⟨output⟩ = .ok spot)
    (hrank : step.rank ≤ Step.opening.rank) :
    (projectWith sdl).Passes o (typeMapTo output) step := by
  by_cases hearly : step.rank < Step.grammar.rank
  · exact projectWith_passes configured read hearly
  intro code left h
  cases h with
  | config | sdlFile | notDeployed | remote => exact hearly (by decide)
  | grammar _ given faulty =>
    cases given with
    | file named read' =>
      cases named
      cases read.symm.trans read'
      exact faulty clean
    | remote unnamed => cases unnamed
  | opening named blocked =>
    cases named
    exact blocked spot place
  | writing | printing | summary => exact absurd hrank (by decide)

/-- An outlet that takes nothing. -/
def fullDevice : Outlet := .limited 0 (.other "No space left on device (os error 28)")

/-- Not only the steps up to the open file decide. A file can take nothing, so that it is there and
empty in the end; the standard output can take a part of the result; it can take nothing of what is
said about a file, and the error output nothing of a message. And without a working directory the
configuration is not looked for, even when it is named. -/
theorem run_ends_beyond_opening :
    ¬ (∀ (w : World) (o : Outlets) args a, Arguments.parse args = .ok a →
        ((w.runInto o args).value.code.code = 0 ↔
          ∀ step, step.rank ≤ Step.opening.rank → w.Passes o a step)) ∧
      ¬ (∀ (w : World) (o : Outlets) args, (w.runInto o args).value.code.code ≠ 0 →
        (w.runInto o args).value.files = w.files) ∧
      ¬ (∀ (w : World) (o : Outlets) args, (w.runInto o args).value.code.code ≠ 0 →
        (w.runInto o args).value.stdout = "") ∧
      ¬ (∀ (w : World) (o : Outlets) args, (w.runInto o args).value.code.code ≠ 0 →
        (w.runInto o args).value.stderr ≠ "") ∧
      ¬ (∀ (w : World) (o : Outlets) args, (w.runInto o args).value.code.code ≤ 5) ∧
      ¬ (∀ (w : World) args a c, Arguments.parse args = .ok a →
        a.configChoice.Yields w.files w.cwd (ConfigChoice.pathOf w.cwd) c →
          (w.run args).value.code.code ≠ 2) := by
  have hfile : ((projectWith "scalar A").runInto ⟨.endless, .endless, fun _ => fullDevice⟩
        ["typemap", "--sdl", "s", "-o", "o"]).value.code.code = 1 ∧
      ((projectWith "scalar A").runInto ⟨.endless, .endless, fun _ => fullDevice⟩
        ["typemap", "--sdl", "s", "-o", "o"]).value.files.isFile ["p"] ⟨"o"⟩ = true := by
    decide +kernel
  refine ⟨fun h => ?_, fun h => ?_, fun h => ?_, fun h => ?_, fun h => ?_, fun h => ?_⟩
  · have configured : (projectWith "scalar A").Configures (typeMapTo "o")
        ⟨"p", "d", "default", none, none, none, none⟩ :=
      ⟨rfl, ConfigChoice.resolve_eq_ok.1 (by decide +kernel)⟩
    have place : (projectWith "scalar A").files.target ["p"] ⟨"o"⟩ = .ok ["p", "o"] := rfl
    have hzero := (h (projectWith "scalar A") ⟨.endless, .endless, fun _ => fullDevice⟩
      ["typemap", "--sdl", "s", "-o", "o"] (typeMapTo "o") rfl).2 fun step =>
        projectWith_sound configured (by decide +kernel) (by decide +kernel) place
    rw [hfile.1] at hzero
    cases hzero
  · have hsame := h _ _ _ (by rw [hfile.1]; decide)
    rw [hsame] at hfile
    exact absurd hfile.2 (by decide)
  · have hrun : ((projectWith "scalar A").runInto
          ⟨.limited 1 .notFound, .endless, fun _ => .endless⟩
          ["typemap", "--sdl", "s"]).value.code.code = 1 ∧
        ((projectWith "scalar A").runInto ⟨.limited 1 .notFound, .endless, fun _ => .endless⟩
          ["typemap", "--sdl", "s"]).value.stdout = "\x7b" := by
      decide +kernel
    have hnone := h _ _ _ (by rw [hrun.1]; decide)
    rw [hrun.2] at hnone
    exact absurd hnone (by decide)
  · have hrun : ((projectWith "type \x7b").runInto ⟨.endless, fullDevice, fun _ => .endless⟩
          ["typemap", "--sdl", "s"]).value.code.code = 101 ∧
        ((projectWith "type \x7b").runInto ⟨.endless, fullDevice, fun _ => .endless⟩
          ["typemap", "--sdl", "s"]).value.stderr = "" := by
      decide +kernel
    exact h _ _ _ (by rw [hrun.1]; decide) hrun.2
  · have hcode := h (projectWith "scalar A") ⟨fullDevice, .endless, fun _ => .endless⟩
      ["typemap", "--sdl", "s", "-o", "o"]
    exact absurd hcode (by decide +kernel)
  · have hcode := h { projectWith "scalar A" with cwd := ["gone"] }
      ["-c", "/p/.typemaprc.json", "typemap", "--sdl", "/p/s"] _
      ⟨"p", "d", "default", none, none, none, none⟩ rfl
      (ConfigChoice.resolve_eq_ok.1 (by decide +kernel))
    exact absurd hcode (by decide +kernel)

end World

end SchemaCatalog.CommandLine
