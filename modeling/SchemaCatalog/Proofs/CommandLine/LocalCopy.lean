import SchemaCatalog.Proofs.CommandLine.Run

/-!
# SchemaCatalog.Proofs.CommandLine.LocalCopy

Classifying a local copy of the deployed schema is classifying the deployed schema.

A fetch that goes to a file leaves the text itself there, without a line end or anything else that
the standard output may get, and reading the file gives the text back: it is a text, whatever the
bytes of the answer were. The file is no file of the configuration, so the configuration is the
same after it is written (`ConfigChoice.yields_set`). What becomes of a text then hangs on the
configuration and the text alone (`resultFrom_typeMap`).
-/

namespace SchemaCatalog.CommandLine

/-- What a run shows: its code and its outputs. -/
def Outcome.shown (o : Outcome) : Ending × String × String := (o.code, o.stdout, o.stderr)

namespace World

variable {w : World} {a : Arguments} {c : Config} {text : String} {path : Path}

/-- What is shown hangs on what becomes of a run, and not on its files or its requests. -/
theorem shown_finish (w w' : World) (colored : Bool) (requests requests' : List Http.Request)
    (result : Except Failure Delivery) :
    (w.finish .endless colored requests result).shown =
      (w'.finish .endless colored requests' result).shown := by
  cases result with
  | error failure =>
    rw [finish_error, finish_error]
    rfl
  | ok d =>
    rw [finish_ok, finish_ok]
    rfl

theorem fetched_with_elapsed (w : World) (c : Config) (elapsed : Nat) :
    { w with elapsed }.fetched c = w.fetched c := by
  rw [fetched, fetched]
  rfl

theorem resultFrom_typeMap (w : World) (a : Arguments) (c : Config) (text : String)
    (sdl : Option Path) (pretty : Bool) :
    w.resultFrom { a with command := .typeMap sdl none pretty } c text =
      match ((classifierOf c).classify text c).value with
      | .error error => .error (.schema error)
      | .ok m => .ok (.printed (withLineEnd (typeMapProduct pretty m).text)) := by
  simp only [resultFrom, Command.product, Logged.value_bind, Logged.value_pure]
  cases ((classifierOf c).classify text c).value with
  | error error => rfl
  | ok m => rfl

theorem result_fetch_of_answer {spot : Location} (hc : w.Configures a c)
    (answer : w.fetched c = .ok text) (writable : w.files.target w.cwd path = .ok spot) :
    ∃ said, w.result { a with command := .fetch (some path) } =
      .ok (.stored path spot text said) := by
  have hfetch : w.Configures { a with command := .fetch (some path) } c := hc
  have htext : w.HasText { a with command := .fetch (some path) } text :=
    .remote rfl hfetch answer
  rw [result_of_configures hfetch, resultWith_of_hasText hfetch htext]
  exact ⟨_, deliver_to_file writable⟩

/-- Without a configuration, or without an answer, every command that needs the deployed schema
fails in the same way. -/
theorem result_of_no_answer (h : ∀ c text, w.Configures a c → w.fetched c ≠ .ok text) :
    ∃ failure, ∀ command elapsed, command.sdl? = none →
      { w with elapsed }.result { a with command } = .error failure := by
  by_cases hconfigured : ∃ c, w.Configures a c
  · obtain ⟨c, hc⟩ := hconfigured
    cases hanswer : w.fetched c with
    | ok text => exact absurd hanswer (h c text hc)
    | error error =>
      refine ⟨.remote error, fun command elapsed unnamed => ?_⟩
      have hsame : { w with elapsed }.Configures { a with command } c := hc
      have hrefused : { w with elapsed }.fetched c = .error error := by
        rw [fetched_with_elapsed, hanswer]
      rw [result_of_configures hsame]
      exact resultWith_of_unanswered unnamed hrefused
  · have hnone : ∀ c, ¬ w.Configures a c := fun c hc => hconfigured ⟨c, hc⟩
    obtain ⟨cause, hcause⟩ := result_of_not_configures hnone
    exact ⟨.config cause, fun command elapsed _ => hcause command elapsed⟩

theorem shown_typeMap_of_copy {spot : Location} {pretty : Bool} {copyArgs directArgs : List String}
    (hcopy : Arguments.parse copyArgs =
      .ok { a with command := .typeMap (some path) none pretty })
    (hdirect : Arguments.parse directArgs = .ok { a with command := .typeMap none none pretty })
    (hc : w.Configures a c) (answer : w.fetched c = .ok text)
    (writable : w.files.target w.cwd path = .ok spot)
    (apart : ∀ p ∈ a.configChoice.consulted w.files w.cwd (ConfigChoice.pathOf w.cwd),
      ¬ w.files.LeadsTo w.cwd p spot)
    {later : World} (hfiles : later.files = w.files.set spot (.file text.toUTF8))
    (hcwd : later.cwd = w.cwd) (henvironment : later.environment = w.environment) :
    (later.run copyArgs).value.shown = (w.run directArgs).value.shown := by
  have hdeployed : w.Configures { a with command := .typeMap none none pretty } c := hc
  -- The file is new, or has new contents, but no configuration hangs on it.
  have vacant := (FileTree.of_target writable).2.1
  have hconfigured : later.Configures { a with command := .typeMap (some path) none pretty } c := by
    rw [Configures, hfiles, hcwd]
    exact ⟨(FileTree.directory_set vacant w.cwd).2 hc.1,
      (ConfigChoice.yields_set vacant apart).2 hc.2⟩
  have hread : later.files.readText later.cwd path = .ok text := by
    rw [hfiles, hcwd]
    exact FileTree.readText_set_target writable
  rw [value_run hcopy, result_of_configures hconfigured,
    resultWith_of_hasText hconfigured (.file rfl hread), value_run hdirect,
    result_of_configures hdeployed, resultWith_of_hasText hdeployed (.remote rfl hdeployed answer),
    henvironment, resultFrom_typeMap, resultFrom_typeMap]
  exact shown_finish later w _ _ _ _

/-- A fetch to a file and a type map of the file together are a type map of the deployed schema.
When the fetch fails, the type map fails in the same way, and no file has changed. When it does
not, both type maps show the same, whatever text the server has given. The file is not one that
is consulted for the configuration; the clock and, for the last run, the server are free. -/
theorem typeMap_of_copy_as_deployed (w : World) (a : Arguments) (path : Path) (pretty : Bool)
    (elapsed elapsed' : Nat) (server' : Http.Server) {spot : Location}
    {fetchArgs copyArgs directArgs : List String}
    (hfetch : Arguments.parse fetchArgs = .ok { a with command := .fetch (some path) })
    (hcopy : Arguments.parse copyArgs =
      .ok { a with command := .typeMap (some path) none pretty })
    (hdirect : Arguments.parse directArgs = .ok { a with command := .typeMap none none pretty })
    (writable : w.files.target w.cwd path = .ok spot)
    (apart : ∀ p ∈ a.configChoice.consulted w.files w.cwd (ConfigChoice.pathOf w.cwd),
      ¬ w.files.LeadsTo w.cwd p spot) :
    ((w.run fetchArgs).value.code.code ≠ 0 →
      ({ w with elapsed }.run directArgs).value.shown = (w.run fetchArgs).value.shown ∧
        (w.run fetchArgs).value.files = w.files) ∧
    ((w.run fetchArgs).value.code.code = 0 →
      ({ w with
          files := (w.run fetchArgs).value.files
          server := server'
          elapsed := elapsed' }.run copyArgs).value.shown =
        ({ w with elapsed }.run directArgs).value.shown) := by
  by_cases hanswered : ∃ c text, w.Configures a c ∧ w.fetched c = .ok text
  · obtain ⟨c, text, hc, hanswer⟩ := hanswered
    obtain ⟨said, hresult⟩ := result_fetch_of_answer hc hanswer writable
    have hfetched : (w.run fetchArgs).value.code.code = 0 ∧
        (w.run fetchArgs).value.files = w.files.set spot (.file text.toUTF8) := by
      rw [value_run hfetch, hresult, finish_ok]
      exact ⟨rfl, rfl⟩
    refine ⟨fun hne => absurd hfetched.1 hne, fun _ => ?_⟩
    have hsame : { w with elapsed }.fetched c = .ok text := by rw [fetched_with_elapsed, hanswer]
    exact shown_typeMap_of_copy (w := { w with elapsed }) hcopy hdirect hc hsame writable apart
      hfetched.2 rfl rfl
  · have hnone : ∀ c text, w.Configures a c → w.fetched c ≠ .ok text :=
      fun c text hc hanswer => hanswered ⟨c, text, hc, hanswer⟩
    obtain ⟨failure, hfailure⟩ := result_of_no_answer hnone
    have hresult : w.result { a with command := .fetch (some path) } = .error failure :=
      hfailure (.fetch (some path)) w.elapsed rfl
    rw [value_run hfetch, hresult, value_run hdirect,
      hfailure (.typeMap none none pretty) elapsed rfl, finish_error, finish_error]
    refine ⟨fun _ => ⟨rfl, rfl⟩, fun hzero => ?_⟩
    exact absurd hzero failure.code_ne_zero

/-- A project with a configuration, and a server that deploys a text without a line end and with a
byte that is no text. -/
def deployment : World where
  files := ⟨[(["p"], .directory),
    (["p", ".typemaprc.json"], .file "\x7b\"projectId\":\"p\",\"dataset\":\"d\"\x7d".toUTF8)]⟩
  cwd := ["p"]
  environment := []
  server := fun _ _ => some ⟨200, [], "type A\x7bb:C\x7d#".toUTF8.push 0xFF, true⟩
  elapsed := 0

theorem typeMap_of_copy_not_text :
    (deployment.run ["schema", "fetch", "-o", "s"]).value.code.code = 0 ∧
      ({ deployment with
          files := (deployment.run ["schema", "fetch", "-o", "s"]).value.files
          server := fun _ _ => none
          elapsed := 2 }.run ["typemap", "--sdl", "s"]).value.shown =
        ({ deployment with elapsed := 1 }.run ["typemap"]).value.shown := by
  have hfetch : Arguments.parse ["schema", "fetch", "-o", "s"] =
      .ok ⟨none, none, none, false, false, false, .fetch (some ⟨"s"⟩)⟩ := rfl
  have hcopy : Arguments.parse ["typemap", "--sdl", "s"] =
      .ok ⟨none, none, none, false, false, false, .typeMap (some ⟨"s"⟩) none false⟩ := rfl
  have hdirect : Arguments.parse ["typemap"] =
      .ok ⟨none, none, none, false, false, false, .typeMap none none false⟩ := rfl
  have writable : deployment.files.target deployment.cwd ⟨"s"⟩ = .ok ["p", "s"] := rfl
  have hfetched : (deployment.run ["schema", "fetch", "-o", "s"]).value.code.code = 0 := by
    decide +kernel
  have hend := typeMap_of_copy_as_deployed deployment
    ⟨none, none, none, false, false, false, .fetch none⟩ ⟨"s"⟩ false 1 2 (fun _ _ => none)
    hfetch hcopy hdirect writable (by decide +kernel)
  exact ⟨hfetched, hend.2 hfetched⟩

end World

end SchemaCatalog.CommandLine
