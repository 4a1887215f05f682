import SchemaCatalog.Proofs.CommandLine.Run
import SchemaCatalog.Proofs.TypeMap.Decoding

/-!
# SchemaCatalog.Proofs.CommandLine.Output

What a run that ends well leaves.

Such a run has a text to write, and a place for it when a file is named (`HasOutput`): its steps
are taken apart once, from its success (`hasOutput_of_success`). Neither colors nor
summaries come into that, nor the clock, so whatever they are, there is the same text and the same
place (`HasOutput.presented`). What is left follows from the text alone (`leaves_of_hasOutput`): it
goes to the standard output with its line end, or else to the file, byte by byte, and then only a
summary goes to the standard output. The counts in the summary are those of the type map that the
text of the file denotes (`Command.Writes.product`).
-/

namespace SchemaCatalog

/-- Without examples there is no number in them. -/
theorem wholeExamples_of_classify {c : Classifier} {config : Config} {sdl : String} {m : TypeMap}
    (unasked : c.examples = .none) (h : (c.classify sdl config).value = .ok m) :
    m.WholeExamples := by
  by_cases hclean : (Sdl.parse sdl).2 = []
  · obtain ⟨m₀, hm₀⟩ := (Sdl.complete_of_clean hclean).typeMap? c.naming
    rw [value_classify c config hclean hm₀, unasked] at h
    cases h
    intro j hj
    cases hj
  · rw [classify_of_faulty c config hclean] at h
    cases h

namespace CommandLine

/-! ## Texts -/

/-- The text that a command writes: the schema text itself, or the text of its type map. -/
inductive Command.Writes (c : Config) (sdl : String) : Command → String → Prop where
  | fetch {output : Option Path} : Writes c sdl (.fetch output) sdl
  | typeMap {path output : Option Path} {pretty : Bool} {m : TypeMap}
      (classified : ((classifierOf c).classify sdl c).value = .ok m) :
      Writes c sdl (.typeMap path output pretty) (m.render (if pretty then .pretty else .compact))

/-- What is said about a text in a file. The counts are those of the type map in the text. -/
inductive Command.Summary (c : Config) (elapsed : Nat) (colored : Bool) (path : Path)
    (text : String) : Command → String → Prop where
  | fetch {output : Option Path} : Summary c elapsed colored path text (.fetch output)
      ((fetchProduct elapsed c text).summary colored path)
  | typeMap {sdl output : Option Path} {pretty : Bool} {m : TypeMap}
      (held : TypeMap.ofText? text = some m) :
      Summary c elapsed colored path text (.typeMap sdl output pretty)
        (tick colored ++ " Type map written to " ++ Style.cyan.paint colored path.text ++ " (" ++
          toString m.objects.entries.length ++ " objects, " ++
          toString m.unions.entries.length ++ " unions, " ++
          toString m.scalars.length ++ " scalars)\n")

section Products

variable {command : Command} {c : Config} {sdl text : String}

theorem Command.writes_of_product {elapsed : Nat} {p : Product}
    (h : (command.product elapsed c sdl).value = .ok p) : command.Writes c sdl p.text := by
  cases command with
  | fetch output =>
    cases h
    exact .fetch
  | typeMap path output pretty =>
    simp only [product, Logged.value_bind, Logged.value_pure] at h
    cases hm : ((classifierOf c).classify sdl c).value with
    | error error => simp [hm, Except.map] at h
    | ok m =>
      rw [hm] at h
      cases h
      exact .typeMap hm

/-- The product is there again at any time, with a summary of its text. -/
theorem Command.Writes.product (h : command.Writes c sdl text) (elapsed : Nat) :
    ∃ p, (command.product elapsed c sdl).value = .ok p ∧ p.text = text ∧
      ∀ colored path, command.Summary c elapsed colored path text (p.summary colored path) := by
  cases h with
  | fetch => exact ⟨_, rfl, rfl, fun _ _ => .fetch⟩
  | @typeMap _ _ pretty m classified =>
    refine ⟨typeMapProduct pretty m, ?_, rfl, fun colored path => .typeMap ?_⟩
    · simp only [Command.product, Logged.value_bind, classified]
      rfl
    · exact TypeMap.ofText?_render _ (unmarked_of_classify classified)
        (wholeExamples_of_classify rfl classified)

end Products

/-! ## Presentation -/

/-- The same request with other options about colors and summaries. -/
def Arguments.presented (a : Arguments) (color noColor quiet : Bool) : Arguments :=
  { a with color, noColor, quiet }

/-- The same files and the same server with other variables and at another time. -/
def World.under (w : World) (environment : Environment) (elapsed : Nat) : World :=
  { w with environment, elapsed }

namespace World

variable {w : World} {a : Arguments} {c : Config} {text : String}

/-! ## Runs that end well -/

/-- A run has a text to write, and a place for it. -/
structure HasOutput (w : World) (a : Arguments) (c : Config) (text : String) : Prop where
  configured : w.Configures a c
  written : ∃ sdl, w.HasText a sdl ∧ a.command.Writes c sdl text
  place : ∀ path, a.command.output? = some path → ∃ spot, w.files.target w.cwd path = .ok spot

theorem configures_of_result {d : Delivery} (h : w.result a = .ok d) :
    ∃ c, w.Configures a c ∧ w.resultWith a c = .ok d := by
  rw [result, bind_eq_ok] at h
  obtain ⟨c, hconfiguration, hd⟩ := h
  exact ⟨c, configuration_eq_ok.1 (mapError_eq_ok.1 hconfiguration), hd⟩

theorem hasText_of_resultWith {d : Delivery} (hc : w.Configures a c)
    (h : w.resultWith a c = .ok d) : ∃ sdl, w.HasText a sdl := by
  cases hsdl : a.command.sdl? with
  | some path =>
    cases hread : w.files.readText w.cwd path with
    | ok sdl => exact ⟨sdl, .file hsdl hread⟩
    | error cause =>
      rw [resultWith_of_unread hsdl hread] at h
      cases h
  | none =>
    cases hanswer : w.fetched c with
    | ok sdl => exact ⟨sdl, .remote hsdl hc hanswer⟩
    | error error =>
      rw [resultWith_of_unanswered hsdl hanswer] at h
      cases h

theorem target_of_deliver {colored quiet : Bool} {path : Path} {p : Product} {d : Delivery}
    (h : w.deliver colored quiet (some path) p = .ok d) :
    ∃ spot, w.files.target w.cwd path = .ok spot := by
  cases htarget : w.files.target w.cwd path with
  | ok spot => exact ⟨spot, rfl⟩
  | error cause =>
    rw [deliver, htarget] at h
    cases h

theorem hasOutput_of_result {d : Delivery} (h : w.result a = .ok d) :
    ∃ c text, w.HasOutput a c text := by
  obtain ⟨c, hc, hwith⟩ := configures_of_result h
  obtain ⟨sdl, hsdl⟩ := hasText_of_resultWith hc hwith
  rw [resultWith_of_hasText hc hsdl, resultFrom, bind_eq_ok] at hwith
  obtain ⟨p, hproduct, hdeliver⟩ := hwith
  have hwrites := Command.writes_of_product (mapError_eq_ok.1 hproduct)
  refine ⟨c, p.text, hc, ⟨sdl, hsdl, hwrites⟩, fun path hpath => ?_⟩
  rw [hpath] at hdeliver
  exact target_of_deliver hdeliver

theorem hasOutput_of_success {args : List String} (accepted : Arguments.parse args = .ok a)
    (success : (w.run args).value.code = .success) : ∃ c text, w.HasOutput a c text := by
  rw [value_run accepted] at success
  cases hresult : w.result a with
  | ok d => exact hasOutput_of_result hresult
  | error failure =>
    rw [hresult] at success
    exact absurd success (fail_ne_success _ _ _ _ _ failure)

theorem result_of_hasOutput (h : w.HasOutput a c text) : ∃ p : Product, p.text = text ∧
    (∀ colored path,
      a.command.Summary c w.elapsed colored path text (p.summary colored path)) ∧
    w.result a = w.deliver (a.isColored w.environment) a.quiet a.command.output? p := by
  obtain ⟨sdl, hsdl, hwrites⟩ := h.written
  obtain ⟨p, hproduct, htext, hsummary⟩ := hwrites.product w.elapsed
  refine ⟨p, htext, hsummary, ?_⟩
  rw [result_of_configures h.configured, resultWith_of_hasText h.configured hsdl, resultFrom,
    hproduct]
  rfl

/-- Presentation and time do not touch the text or its place. -/
theorem HasOutput.presented (h : w.HasOutput a c text) (environment : Environment)
    (elapsed : Nat) (color noColor quiet : Bool) :
    (w.under environment elapsed).HasOutput (a.presented color noColor quiet) c text := by
  obtain ⟨sdl, hsdl, hwrites⟩ := h.written
  refine ⟨h.configured, ⟨sdl, ?_, hwrites⟩, h.place⟩
  cases hsdl with
  | file named read => exact .file named read
  | @remote c' _ unnamed configured answer =>
    have hsame : (w.under environment elapsed).fetched c' = w.fetched c' := by
      rw [fetched, fetched]
      rfl
    have hconfigured : (w.under environment elapsed).Configures
      (a.presented color noColor quiet) c' := configured
    exact .remote unnamed hconfigured (hsame.trans answer)

/-! ## What is left -/

/-- A run leaves a text and nothing else: on the standard output and with a line end, or in a file
and as it is, with at most a summary on the standard output. -/
structure Leaves (w : World) (a : Arguments) (c : Config) (text : String) (o : Outcome) :
    Prop where
  success : o.code = .success
  shown : a.command.output? = none →
    o.stdout = (if text.toList.getLast? = some '\n' then text else text ++ "\n") ∧
      o.files = w.files
  stored : ∀ path, a.command.output? = some path →
    o.files.read w.cwd path = .ok text.toUTF8 ∧
      ∃ spot, w.files.target w.cwd path = .ok spot ∧
        o.files = w.files.set spot (.file text.toUTF8)
  silent : ∀ path, a.command.output? = some path → a.quiet = true → o.stdout = ""
  summary : ∀ path, a.command.output? = some path → a.quiet = false →
    a.command.Summary c w.elapsed (a.isColored w.environment) path text o.stdout

theorem leaves_of_hasOutput {args : List String} (accepted : Arguments.parse args = .ok a)
    (h : w.HasOutput a c text) : w.Leaves a c text (w.run args).value := by
  obtain ⟨p, rfl, hsummary, hresult⟩ := result_of_hasOutput h
  rw [value_run accepted, hresult]
  cases houtput : a.command.output? with
  | none =>
    rw [deliver, finish_ok]
    refine ⟨rfl, fun _ => ⟨rfl, rfl⟩, ?_, ?_, ?_⟩
    all_goals
      rw [houtput]
      rintro path ⟨⟩
  | some path =>
    obtain ⟨spot, hspot⟩ := h.place path houtput
    obtain ⟨hpath, vacant, hlead⟩ := FileTree.of_target hspot
    rw [deliver_to_file hspot, finish_ok]
    refine ⟨rfl, ?_, ?_, ?_, ?_⟩
    all_goals rw [houtput]
    · rintro ⟨⟩
    · rintro path ⟨⟩
      refine ⟨FileTree.read_eq_ok.2 ⟨spot, ?_⟩, spot, hspot, rfl⟩
      exact FileTree.resolve_eq_ok.2
        ⟨hpath, (FileTree.walk_set vacant).2 hlead, FileTree.entry?_set_self vacant.ne_nil _⟩
    · rintro path ⟨⟩ hquiet
      simp [Delivery.stdout, hquiet]
    · rintro path ⟨⟩ hquiet
      simpa [Delivery.stdout, hquiet] using hsummary _ path

theorem Leaves.same_bytes {o o' : Outcome} {environment : Environment} {elapsed : Nat}
    {color noColor quiet : Bool} (h : w.Leaves a c text o)
    (h' : (w.under environment elapsed).Leaves (a.presented color noColor quiet) c text o') :
    o'.files = o.files ∧ (a.command.output? = none → o'.stdout = o.stdout) := by
  refine ⟨?_, fun hnone => (h'.shown hnone).1.trans (h.shown hnone).1.symm⟩
  cases houtput : a.command.output? with
  | none =>
    have hfiles' : o'.files = w.files := (h'.shown houtput).2
    rw [hfiles', (h.shown houtput).2]
  | some path =>
    obtain ⟨_, spot, hspot, hfiles⟩ := h.stored path houtput
    obtain ⟨_, spot', hspot', hfiles'⟩ := h'.stored path houtput
    have hsame : spot' = spot := Except.ok.inj (hspot'.symm.trans hspot)
    rw [hfiles, hfiles', hsame, under]

/-- Every run that ends well leaves exactly the text that its command writes for the schema text,
and for every choice of options and variables about colors and summaries, whatever the time, it
leaves the same bytes. This holds for all outlets; where everything is taken, the runs with other
options and variables end well because the first one does. -/
theorem run_leaves_exact_text (w : World) (o : Outlets) (args : List String) {a : Arguments}
    (accepted : Arguments.parse args = .ok a)
    (success : (w.runInto o args).value.code = .success) :
    ∃ c sdl text, w.Configures a c ∧ w.HasText a sdl ∧ a.command.Writes c sdl text ∧
      w.Leaves a c text (w.runInto o args).value ∧
      ∀ environment elapsed color noColor quiet args' o',
        Arguments.parse args' = .ok (a.presented color noColor quiet) →
        o' = .endless ∨
          ((w.under environment elapsed).runInto o' args').value.code = .success →
        (w.under environment elapsed).Leaves (a.presented color noColor quiet) c text
            ((w.under environment elapsed).runInto o' args').value ∧
          ((w.under environment elapsed).runInto o' args').value.files =
            (w.runInto o args).value.files ∧
          (a.command.output? = none →
            ((w.under environment elapsed).runInto o' args').value.stdout =
              (w.runInto o args).value.stdout) := by
  have hrun := runInto_of_success accepted success
  rw [hrun] at success ⊢
  obtain ⟨c, text, h⟩ := hasOutput_of_success accepted success
  obtain ⟨sdl, hsdl, hwrites⟩ := h.written
  have hleaves := leaves_of_hasOutput accepted h
  refine ⟨c, sdl, text, h.configured, hsdl, hwrites, hleaves, ?_⟩
  intro environment elapsed color noColor quiet args' o' accepted' ends
  have hrun' : ((w.under environment elapsed).runInto o' args').value =
      ((w.under environment elapsed).run args').value := by
    rcases ends with rfl | success'
    · rfl
    · exact runInto_of_success accepted' success'
  rw [hrun']
  have hleaves' := leaves_of_hasOutput accepted'
    (h.presented environment elapsed color noColor quiet)
  exact ⟨hleaves', hleaves.same_bytes hleaves'⟩

/-- A project with a configuration, a schema file, and a file that will be written over. -/
def classified : World where
  files := ⟨[(["p"], .directory), (["p", "s"], .file "type A\x7bb:C\x7d scalar C".toUTF8),
    (["p", ".typemaprc.json"], .file "\x7b\"projectId\":\"p\",\"dataset\":\"d\"\x7d".toUTF8),
    (["p", "o"], .file "\x7b\x7d\n".toUTF8)]⟩
  cwd := ["p"]
  environment := [("NO_COLOR", "")]
  server := fun _ _ => none
  elapsed := 0

/-- The type map takes the place of what was in the file, with and without colors and summary. -/
theorem classified_leaves_exact_text : ∃ text : String,
    (classified.run ["typemap", "--sdl", "s", "-o", "o"]).value.files.read classified.cwd ⟨"o"⟩ =
        .ok text.toUTF8 ∧
      ((classified.under [("CLICOLOR_FORCE", "1")] 3).run
          ["-q", "typemap", "--sdl", "s", "--color", "-o", "o"]).value.files =
        (classified.run ["typemap", "--sdl", "s", "-o", "o"]).value.files ∧
      ((classified.under [("CLICOLOR_FORCE", "1")] 3).run
          ["-q", "typemap", "--sdl", "s", "--color", "-o", "o"]).value.stdout = "" := by
  have accepted : Arguments.parse ["typemap", "--sdl", "s", "-o", "o"] =
      .ok ⟨none, none, none, false, false, false, .typeMap (some ⟨"s"⟩) (some ⟨"o"⟩) false⟩ := rfl
  have accepted' : Arguments.parse ["-q", "typemap", "--sdl", "s", "--color", "-o", "o"] =
      .ok ⟨none, none, none, true, false, true, .typeMap (some ⟨"s"⟩) (some ⟨"o"⟩) false⟩ := rfl
  have success : (classified.run ["typemap", "--sdl", "s", "-o", "o"]).value.code = .success := by
    decide +kernel
  obtain ⟨_, _, text, _, _, _, hleaves, hpresented⟩ :=
    run_leaves_exact_text classified .endless _ accepted success
  obtain ⟨hleaves', hfiles, _⟩ :=
    hpresented [("CLICOLOR_FORCE", "1")] 3 true false true _ .endless accepted' (.inl rfl)
  have hstored := (hleaves.stored ⟨"o"⟩ rfl).1
  have hsilent := hleaves'.silent ⟨"o"⟩ rfl rfl
  exact ⟨text, hstored, hfiles, hsilent⟩

end World

end CommandLine

end SchemaCatalog
