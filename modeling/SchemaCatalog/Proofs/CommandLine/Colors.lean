import SchemaCatalog.Proofs.CommandLine.Output
import SchemaCatalog.Proofs.TwoRuns

/-!
# SchemaCatalog.Proofs.CommandLine.Colors

When the messages of a run have colors.

Two rules look at the variables, and the second one sees only what the first one makes no choice
about. Together they come to a plain answer (`isColored_iff`): the two agree but for the variable
that forces colors being set and empty. That is no force for the first rule, which therefore makes
no choice, and a force for the second.

A message is a text with its colors or the same text without them, and whether it has them is all
that the decision does to a run (`resultFrom_presented`). So an escape in a message is there
because of the decision, or it is in the message without colors as well, as part of a name.
-/

namespace SchemaCatalog.CommandLine

/-! ## The decision -/

namespace Arguments

/-- Colors are asked for: by the option, or else, with no option and no variable against it, by the
variable that forces them, when it is neither empty nor zero. -/
def AsksForColors (a : Arguments) (environment : Environment) : Prop :=
  a.color = true ∨
    a.color = false ∧ a.noColor = false ∧ environment.lookup "NO_COLOR" = none ∧
      ∃ value, environment.lookup "CLICOLOR_FORCE" = some value ∧ value ≠ "" ∧ value ≠ "0"

/-- Nothing is said for or against colors, and the variable that forces them is set to nothing. -/
def ForcesByEmpty (a : Arguments) (environment : Environment) : Prop :=
  a.color = false ∧ a.noColor = false ∧ environment.lookup "NO_COLOR" = none ∧
    environment.lookup "CLICOLOR_FORCE" = some ""

variable {a : Arguments} {environment : Environment}

theorem AsksForColors.not_empty (h : a.AsksForColors environment) :
    ¬ a.ForcesByEmpty environment := by
  rintro ⟨hcolor, _, _, hforce⟩
  rcases h with h | ⟨_, _, _, value, hvalue, hne, _⟩
  · rw [h] at hcolor
    cases hcolor
  · rw [hforce, Option.some.injEq] at hvalue
    exact hne hvalue.symm

/-- Without a choice the variable that forbids colors is not set, or the one that forces them would
not be looked at, and so what is usual hangs on the latter. -/
theorem isColored_of_unforbidden (hcolor : a.color = false) (hno : a.noColor = false)
    (hfree : environment.lookup "NO_COLOR" = none) : a.isColored environment = true ↔
      ∃ value, environment.lookup "CLICOLOR_FORCE" = some value ∧ value ≠ "0" := by
  have husual : Style.isUsual environment false =
      decide (isOn environment "CLICOLOR_FORCE" = some true) := by
    rw [Style.isUsual, hfree]
    by_cases h : isOn environment "CLICOLOR_FORCE" = some true <;> simp [h]
  rw [isColored, husual, isOn]
  cases hforce : environment.lookup "CLICOLOR_FORCE" with
  | some value =>
    have hchoice : a.colorChoice? environment =
        if value ≠ "" ∧ value ≠ "0" then some true else none := by
      simp only [colorChoice?, hcolor, hno, hfree, hforce]
      rfl
    rw [hchoice]
    by_cases hempty : value = ""
    · simp [hempty]
    · by_cases hzero : value = "0" <;> simp [hempty, hzero]
  | none =>
    have hchoice : a.colorChoice? environment =
        if environment.lookup "CLICOLOR" = some "0" then some false else none := by
      simp only [colorChoice?, hcolor, hno, hfree, hforce]
      rfl
    rw [hchoice]
    by_cases hoff : environment.lookup "CLICOLOR" = some "0" <;> simp [hoff]

theorem isColored_iff : a.isColored environment = true ↔
    a.AsksForColors environment ∨ a.ForcesByEmpty environment := by
  by_cases hcolor : a.color = true
  · simp [isColored, colorChoice?, AsksForColors, hcolor]
  rw [Bool.not_eq_true] at hcolor
  by_cases hforbidden : a.noColor = true ∨ (environment.lookup "NO_COLOR").isSome = true
  · have hnot : a.isColored environment = false := by
      rw [isColored, colorChoice?, hcolor, if_neg (by simp), if_pos hforbidden]
      rfl
    rw [hnot]
    constructor
    · intro h
      cases h
    · intro h
      have hfree : a.noColor = false ∧ environment.lookup "NO_COLOR" = none := by
        rcases h with (h | ⟨_, hno, hfree, _⟩) | ⟨_, hno, hfree, _⟩
        · rw [hcolor] at h
          cases h
        · exact ⟨hno, hfree⟩
        · exact ⟨hno, hfree⟩
      simp [hfree] at hforbidden
  · rw [not_or, Bool.not_eq_true, Bool.not_eq_true, Option.isSome_eq_false_iff,
      Option.isNone_iff_eq_none] at hforbidden
    obtain ⟨hno, hfree⟩ := hforbidden
    rw [isColored_of_unforbidden hcolor hno hfree]
    simp only [AsksForColors, ForcesByEmpty, hcolor, hno, hfree, Bool.false_eq_true, false_or,
      true_and]
    constructor
    · rintro ⟨value, hvalue, hzero⟩
      by_cases hempty : value = ""
      · exact .inr (hempty ▸ hvalue)
      · exact .inl ⟨value, hvalue, hempty, hzero⟩
    · rintro (⟨value, hvalue, _, hzero⟩ | hvalue)
      · exact ⟨value, hvalue, hzero⟩
      · exact ⟨"", hvalue, by decide⟩

end Arguments

/-! ## Escapes in messages -/

/-- A text has the character that starts escape sequences. -/
def HasEscape (text : String) : Prop := '\x1b' ∈ text.toList

theorem hasEscape_append {s t : String} : HasEscape (s ++ t) ↔ HasEscape s ∨ HasEscape t := by
  rw [HasEscape, String.toList_append, List.mem_append]
  rfl

theorem Style.hasEscape_paint (style : Style) (text : String) :
    HasEscape (style.paint true text) := by
  rw [HasEscape, paint, if_pos rfl, String.toList_ofList, start, String.toList_append,
    String.toList_append]
  exact List.mem_append_left _ (List.mem_append_left _ (List.mem_append_left _
    (List.mem_append_left _ (by decide))))

theorem Failure.hasEscape_text {failure : Failure} (h : failure.isTold = true) :
    HasEscape (failure.text true) := by
  have hcross : HasEscape (cross true) := Style.hasEscape_paint _ _
  cases failure with
  | config cause => simp [text, hasEscape_append, hcross]
  | reading path cause => simp [text, hasEscape_append, hcross]
  | remote error =>
    rw [text]
    split
    · simp [hasEscape_append, Style.hasEscape_paint]
    · simp [hasEscape_append, hcross]
  | schema error => simp [text, hasEscape_append, hcross]
  | writing _ _ | printing _ => cases h

theorem Failure.text_of_not_told {failure : Failure} (h : failure.isTold = false)
    (colored : Bool) : failure.text colored = failure.text false := by
  cases failure with
  | writing _ _ | printing _ => rfl
  | config _ | reading _ _ | remote _ | schema _ => cases h

theorem Command.Summary.hasEscape {command : Command} {c : Config} {elapsed : Nat} {path : Path}
    {text said : String} (h : command.Summary c elapsed true path text said) : HasEscape said := by
  have htick : HasEscape (tick true) := Style.hasEscape_paint _ _
  cases h with
  | fetch => simp [fetchProduct, hasEscape_append, htick]
  | typeMap held => simp [hasEscape_append, htick]

/-! ## Runs -/

/-- What a run says. A result on the standard output is not said; what is said about a result in a
file is. -/
def Outcome.messages (o : Outcome) (command : Command) : String :=
  if command.output?.isSome then o.stdout ++ o.stderr else o.stderr

/-- The same request without colors. -/
def Arguments.plain (a : Arguments) : Arguments := a.presented false true a.quiet

theorem Arguments.isColored_plain (a : Arguments) (environment : Environment) :
    a.plain.isColored environment = false := by
  simp [plain, presented, isColored, colorChoice?]

namespace World

variable {w : World} {a : Arguments}

/-- What the run of a command line says that asks for this. -/
def said (w : World) (args : List String) (a : Arguments) : String :=
  (w.run args).value.messages a.command

/-- What a run says without colors. -/
def plainlySaid (w : World) (a : Arguments) : String :=
  (w.execute .endless a.plain).value.messages a.command

/-- A message of a run is one that can have colors. The failures that the program tells of itself
have them, and so has what is said about a file. -/
inductive Paints (w : World) (a : Arguments) : Prop where
  | failure {failure : Failure} (fails : w.result a = .error failure)
      (told : failure.isTold = true) : Paints w a
  | summary {path : Path} {d : Delivery} (ends : w.result a = .ok d)
      (named : a.command.output? = some path) (loud : a.quiet = false) : Paints w a

/-- The same is put out with and without colors, but for what is said in colors about a file. -/
def SamePut (a : Arguments) (colored : Bool) (d plain : Delivery) : Prop :=
  colored = false ∨ a.command.output? = none ∨ a.quiet = true → plain.stdout = d.stdout

theorem deliver_plain (w : World) (a : Arguments) (colored : Bool) (p : Product) :
    Agree (SamePut a colored) (w.deliver colored a.quiet a.command.output? p)
      (w.deliver false a.quiet a.command.output? p) := by
  cases houtput : a.command.output? with
  | none => exact .ok fun _ => rfl
  | some path =>
    rw [deliver, deliver]
    cases w.files.target w.cwd path with
    | error cause => exact .error _
    | ok spot =>
      refine .ok ?_
      rw [SamePut, houtput]
      rintro (rfl | hnone | hquiet)
      · rfl
      · cases hnone
      · simp [Delivery.stdout, hquiet]

/-- The decision about colors comes into nothing but the delivery. -/
theorem result_plain (w : World) (a : Arguments) :
    Agree (SamePut a (a.isColored w.environment)) (w.result a) (w.result a.plain) := by
  have hchoice : a.plain.configChoice = a.configChoice := rfl
  have hcommand : a.plain.command = a.command := rfl
  have hquiet : a.plain.quiet = a.quiet := rfl
  rw [result, result, hchoice]
  cases (w.configuration a.configChoice).value with
  | error cause => exact .error _
  | ok c =>
    change Agree _ (w.resultWith a c) (w.resultWith a.plain c)
    rw [resultWith, resultWith, hcommand]
    cases (w.schemaText c a.command.sdl?).value.result with
    | error failure => exact .error _
    | ok text =>
      change Agree _ (w.resultFrom a c text) (w.resultFrom a.plain c text)
      rw [resultFrom, resultFrom, hcommand, hquiet, a.isColored_plain]
      cases (a.command.product w.elapsed c text).value with
      | error error => exact .error _
      | ok p => exact w.deliver_plain a _ p

section Messages

variable {args : List String} (accepted : Arguments.parse args = .ok a)
include accepted

/-- Without colors, or without a message that can have them, a run says what it says without
colors. -/
theorem messages_eq_plain (h : a.isColored w.environment = false ∨ ¬ w.Paints a) :
    w.said args a = w.plainlySaid a := by
  rw [said, plainlySaid, value_run accepted, value_execute, a.isColored_plain]
  have hagree := w.result_plain a
  cases hresult : w.result a with
  | error failure =>
    have htext : failure.text (a.isColored w.environment) = failure.text false := by
      rcases h with huncolored | hunpainted
      · rw [huncolored]
      · refine failure.text_of_not_told ?_ _
        rw [← Bool.not_eq_true]
        exact fun htold => hunpainted (.failure hresult htold)
    rw [hresult] at hagree
    generalize w.result a.plain = plain at hagree
    cases hagree with
    | error => simp only [finish_error, Outcome.messages, htext]
  | ok d =>
    rw [hresult] at hagree
    generalize w.result a.plain = plain at hagree
    cases hagree with
    | ok same =>
      cases houtput : a.command.output? with
      | none => simp [finish_ok, Outcome.messages, houtput]
      | some path =>
        have hsaid := same (h.imp_right fun hunpainted => .inr (by
          rw [← Bool.not_eq_false]
          exact fun hloud => hunpainted (.summary hresult houtput hloud)))
        simp only [finish_ok, Outcome.messages, houtput, hsaid]

theorem hasEscape_of_paints (hcolored : a.isColored w.environment = true) (h : w.Paints a) :
    HasEscape (w.said args a) := by
  rw [said]
  cases h with
  | @failure failure fails told =>
    have hescape := failure.hasEscape_text told
    rw [value_run accepted, fails, hcolored]
    simp only [finish_error, Outcome.messages, String.empty_append, ite_self]
    exact hescape
  | @summary path d ends named loud =>
    obtain ⟨c, text, houtput⟩ := hasOutput_of_result ends
    have hsummary := (leaves_of_hasOutput accepted houtput).summary path named loud
    rw [hcolored] at hsummary
    rw [Outcome.messages, named, Option.isSome_some, if_pos rfl, hasEscape_append]
    exact .inl hsummary.hasEscape

/-- Whether the messages of a run have escapes, for every command line that is accepted and all
variables. They have them when colors are asked for, when the variable that forces colors is empty
and nothing else is said, or when they have them without colors as well. So a run with a message
does as it is asked, exactly when it is not that variable alone that decides. -/
theorem run_colors_meet_iff :
    (w.Paints a → (HasEscape (w.said args a) ↔ a.AsksForColors w.environment ∨
      a.ForcesByEmpty w.environment ∨ HasEscape (w.plainlySaid a))) ∧
    (¬ w.Paints a → w.said args a = w.plainlySaid a) ∧
    (w.Paints a → ¬ HasEscape (w.plainlySaid a) →
      ((HasEscape (w.said args a) ↔ a.AsksForColors w.environment) ↔
        ¬ a.ForcesByEmpty w.environment)) := by
  have hsaid : w.Paints a → (HasEscape (w.said args a) ↔ a.AsksForColors w.environment ∨
      a.ForcesByEmpty w.environment ∨ HasEscape (w.plainlySaid a)) := by
    intro hpaints
    rw [← or_assoc, ← Arguments.isColored_iff]
    cases hcolored : a.isColored w.environment with
    | true => simpa using hasEscape_of_paints accepted hcolored hpaints
    | false => simp [messages_eq_plain accepted (.inl hcolored)]
  refine ⟨hsaid, fun h => messages_eq_plain accepted (.inr h), fun hpaints hplain => ?_⟩
  rw [hsaid hpaints]
  constructor
  · intro hmeets hempty
    exact (hmeets.1 (.inr (.inl hempty))).not_empty hempty
  · intro hempty
    simp [hempty, hplain]

end Messages

/-- A place without a configuration. -/
def bare (environment : Environment) : World where
  files := ⟨[(["p"], .directory)]⟩
  cwd := ["p"]
  environment := environment
  server := fun _ _ => none
  elapsed := 0

theorem result_bare {environment : Environment} (hchoice : a.configChoice = ⟨none, none, none⟩) :
    (bare environment).result a = .error (.config .notFound) := by
  have hfile : (Config.find ⟨[(["p"], .directory)]⟩ ["p"] (ConfigChoice.pathOf ["p"])).value =
      none := by
    decide +kernel
  rw [result, hchoice, configuration_of_here rfl]
  simp only [ConfigChoice.resolve, ConfigChoice.file, bare, Logged.value_bind, hfile]
  rfl

/-- The command for the type map and nothing else. -/
def typeMapAlone : Arguments := ⟨none, none, none, false, false, false, .typeMap none none false⟩

/-- One variable switches colors off, and another one that forces them is stronger. -/
theorem bare_colors_forced :
    Arguments.parse ["typemap"] = .ok typeMapAlone ∧
    HasEscape
      ((bare [("CLICOLOR", "0"), ("CLICOLOR_FORCE", "1")]).said ["typemap"] typeMapAlone) := by
  have accepted : Arguments.parse ["typemap"] = .ok typeMapAlone := rfl
  refine ⟨accepted, ?_⟩
  exact ((run_colors_meet_iff accepted).1 (.failure (result_bare rfl) rfl)).2
    (.inl (.inr ⟨rfl, rfl, rfl, "1", rfl, by decide, by decide⟩))

/-- Colors that nothing asks for: the variable is empty. -/
theorem bare_colors_unasked :
    Arguments.parse ["typemap"] = .ok typeMapAlone ∧
    HasEscape ((bare [("CLICOLOR_FORCE", "")]).said ["typemap"] typeMapAlone) ∧
    ¬ typeMapAlone.AsksForColors (bare [("CLICOLOR_FORCE", "")]).environment := by
  refine ⟨rfl, ?_, ?_⟩
  · rw [HasEscape]
    decide +kernel
  · rintro (h | ⟨_, _, _, value, hvalue, hne, _⟩)
    · cases h
    · cases hvalue
      exact hne rfl

end World

end SchemaCatalog.CommandLine
