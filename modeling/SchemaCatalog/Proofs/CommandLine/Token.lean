import SchemaCatalog.Proofs.CommandLine.LocalCopy
import SchemaCatalog.Proofs.Config.Token
import SchemaCatalog.Proofs.Remote.Token

/-!
# SchemaCatalog.Proofs.CommandLine.Token

Runs do not show the token.

Two worlds whose configuration files differ by the token have runs that say the same: the same
events, the same outputs, the same code, the same text written to the same place. What differs is
the header of the requests, and there only the field for the token (`run_hides_token`). The two
runs are compared step by step, and what relates them after a step is what the next one needs:
configurations that differ by the token (`configuration_alike`), one schema text or failure from
requests that differ by who asks (`schemaText_alike`), one product, one place to write
(`deliver_alike`), and the same to put out in the end (`finish_alike`).

The token does show when the schema file is the configuration file, for then its contents are the
schema text. And a base URL can name a user, who is in the header as well (`run_shows_token`).
-/

namespace SchemaCatalog

open Logged (Alike)
open Config (FilesApart TokensApart)

namespace CommandLine

/-- The files once a text is written at a location as far as it is taken there, or nothing is. -/
def Outlets.filesAfter (o : Outlets) (t : FileTree) : Option (Location × String) → FileTree
  | none => t
  | some (spot, text) => t.set spot (.file ((o.file spot).bytesTaken text))

variable {spot : Location} {text text' : String}

/-! ## Configuration -/

namespace ConfigChoice

variable (choice : ConfigChoice) {cwd : Location} {files files' : FileTree} {c c' : Config}

theorem override_apart (h : TokensApart c c') :
    TokensApart (choice.override c) (choice.override c') := by
  refine ⟨?_, h.sendable⟩
  have hother : c' = { c with token := c'.token } := h.same
  rw [override, override, hother]

theorem resolveAt_alike (h : FilesApart spot text text' cwd files files') (path : Path) :
    Alike (Agree TokensApart) (choice.resolveAt files cwd path)
      (choice.resolveAt files' cwd path) := by
  rw [resolveAt, resolveAt]
  refine (Config.loadFile_alike h path).bind fun loaded loaded' hloaded => ?_
  cases hloaded with
  | error error => exact .pure (.error _)
  | ok apart =>
    have hover := choice.override_apart apart
    simp only [hover.validate_eq, hover.dataset_eq, hover.graphqlApi_eq]
    -- Whether the second check is made or left out, both have the same result of it.
    cases choice.overrides
    all_goals
      simp only [if_true, Bool.false_eq_true, if_false]
      refine .after _ fun checked => ?_
      cases checked with
      | error error => exact .pure (.error _)
      | ok u => exact .after _ fun _ => .pure (.ok hover)

theorem resolve_alike (h : FilesApart spot text text' cwd files files') (start : Path) :
    Alike (Agree TokensApart) (choice.resolve files cwd start)
      (choice.resolve files' cwd start) := by
  have hfile : choice.file files' cwd start = choice.file files cwd start := by
    rw [file, file, Config.find, Config.find, h.replaced, Config.findAmong_replace h.there]
  rw [resolve, resolve, hfile]
  refine .after _ fun found => ?_
  cases found with
  | none => exact .pure (.error _)
  | some path => exact choice.resolveAt_alike h path

end ConfigChoice

/-! ## Product -/

theorem Command.product_apart {c c' : Config} (hc : TokensApart c c') (command : Command)
    (elapsed : Nat) (sdl : String) :
    command.product elapsed c' sdl = command.product elapsed c sdl := by
  cases command with
  | fetch output =>
    simp only [product, fetchProduct, hc.dataset_eq, hc.graphqlApi_eq]
  | typeMap sdlFile output pretty =>
    have hclassifier : classifierOf c' = classifierOf c := by
      rw [classifierOf, classifierOf, hc.typePrefix_eq]
    -- Only a generator of examples could look at the configuration, and there is none.
    have hclassify : (classifierOf c).classify sdl c' = (classifierOf c).classify sdl c := rfl
    rw [product, product, hclassifier, hclassify]

namespace World

/-! ## What two runs leave -/

section Outcomes

variable (w w' : World)

/-- The requests of two runs: none, or those for their configurations. -/
inductive Sent (a : Arguments) : List Http.Request → List Http.Request → Prop where
  | nothing : Sent a [] []
  | configured {c c' : Config} {requests requests' : List Http.Request}
      (found : w.Configures a c) (found' : w'.Configures a c') (apart : TokensApart c c')
      (sent : Remote.SentFor c c' requests requests') : Sent a requests requests'

/-- Two outcomes show the same and write the same. -/
structure Ended (o : Outlets) (a : Arguments) (left left' : Outcome) : Prop where
  shown : left'.shown = left.shown
  written : ∃ written, left.files = o.filesAfter w.files written ∧
    left'.files = o.filesAfter w'.files written
  requests : Sent w w' a left.requests left'.requests

end Outcomes

/-- What is put out is the same, so the outlets take the same of it. -/
theorem finish_alike {w w' : World} {o : Outlets} {a : Arguments} {colored : Bool}
    {requests requests' : List Http.Request} (hsent : Sent w w' a requests requests')
    (result : Except Failure Delivery) :
    Ended w w' o a (w.finish o colored requests result) (w'.finish o colored requests' result) := by
  cases result with
  | error failure => exact ⟨rfl, ⟨none, rfl, rfl⟩, hsent⟩
  | ok d =>
    cases d with
    | printed text =>
      rw [finish, finish]
      cases o.stdout.refusal? text with
      | some cause => exact ⟨rfl, ⟨none, rfl, rfl⟩, hsent⟩
      | none => exact ⟨rfl, ⟨none, rfl, rfl⟩, hsent⟩
    | stored path spot text summary =>
      rw [finish, finish]
      cases (o.file spot).refusal? text with
      | some cause => exact ⟨rfl, ⟨some (spot, text), rfl, rfl⟩, hsent⟩
      | none =>
        cases o.stdout.refusal? summary with
        | some cause => exact ⟨rfl, ⟨some (spot, text), rfl, rfl⟩, hsent⟩
        | none => exact ⟨rfl, ⟨some (spot, text), rfl, rfl⟩, hsent⟩

/-! ## Steps -/

/-- Two worlds are the same but for the token in one configuration file. -/
structure Apart (spot : Location) (text text' : String) (w w' : World) : Prop where
  files : FilesApart spot text text' w.cwd w.files w'.files
  cwd : w'.cwd = w.cwd
  environment : w'.environment = w.environment
  server : Remote.AnswerAlike w.server w'.server
  noClient : w'.noClient = w.noClient
  elapsed : w'.elapsed = w.elapsed

section Runs

variable {w w' : World} (apart : Apart spot text text' w w')
include apart

theorem deliver_alike (colored quiet : Bool) (output : Option Path) (p : Product) :
    w'.deliver colored quiet output p = w.deliver colored quiet output p := by
  cases output with
  | none => rfl
  | some path =>
    rw [deliver, deliver, apart.cwd, apart.files.replaced,
      FileTree.target_replace apart.files.there]

theorem carrier_alike : Agree Remote.AnswerAlike w.carrier w'.carrier := by
  rw [carrier, carrier, apart.noClient]
  cases w.noClient with
  | none => exact .ok apart.server
  | some cause => exact .error cause

theorem configuration_alike (choice : ConfigChoice) :
    Alike (Agree TokensApart) (w.configuration choice) (w'.configuration choice) := by
  have vacant : w.files.Vacant spot := by
    rw [FileTree.Vacant, apart.files.there]
    nofun
  have hhere : w'.files.entry? w'.cwd = some .directory ↔
      w.files.entry? w.cwd = some .directory := by
    rw [apart.cwd, apart.files.replaced]
    exact FileTree.directory_set vacant w.cwd
  by_cases h : w.files.entry? w.cwd = some .directory
  · rw [configuration_of_here h, configuration_of_here (hhere.2 h), apart.cwd]
    exact choice.resolve_alike apart.files _
  · rw [configuration_of_gone h, configuration_of_gone fun h' => h (hhere.1 h')]
    exact .pure (.error _)

variable {a : Arguments} (unread : ∀ path ∈ a.command.sdl?, ¬ w.files.LeadsTo w.cwd path spot)
include unread

theorem schemaText_alike {c c' : Config} (hc : TokensApart c c') :
    Alike (Remote.Fetched c c') (w.schemaText c a.command.sdl?)
      (w'.schemaText c' a.command.sdl?) := by
  cases hsdl : a.command.sdl? with
  | some path =>
    refine .pure ⟨?_, .nothing⟩
    rw [apart.cwd, apart.files.replaced,
      FileTree.readText_replace apart.files.there (unread path hsdl)]
  | none =>
    refine (Remote.fetchSchemaBy_alike (carrier_alike apart) hc).bind fun fetched fetched' h => ?_
    exact .pure ⟨by rw [h.result], h.requests⟩

theorem runWith_alike (o : Outlets) {c c' : Config} (found : w.Configures a c)
    (found' : w'.Configures a c') (hc : TokensApart c c') :
    Alike (Ended w w' o a) (w.runWith o a c) (w'.runWith o a c') := by
  rw [runWith, runWith]
  refine (schemaText_alike apart unread hc).bind fun fetched fetched' h => ?_
  have hsent := Sent.configured found found' hc h.requests
  rw [h.result, apart.environment]
  cases fetched.result with
  | error failure => exact .pure (finish_alike hsent _)
  | ok text =>
    simp only [Command.product_apart hc, apart.elapsed, deliver_alike apart]
    refine .after _ fun product => ?_
    cases product with
    | error error => exact .pure (finish_alike hsent _)
    | ok product => exact .pure (finish_alike hsent _)

theorem execute_alike (o : Outlets) : Alike (Ended w w' o a) (w.execute o a) (w'.execute o a) := by
  rw [execute, execute, apart.environment]
  refine (configuration_alike apart a.configChoice).values.bind fun found found' h => ?_
  obtain ⟨hfound, hfound', h⟩ := h
  cases h with
  | error cause => exact .pure (finish_alike .nothing _)
  | ok hc =>
    exact runWith_alike apart unread o (configuration_eq_ok.1 hfound)
      (configuration_eq_ok.1 hfound') hc

end Runs

/-! ## Runs -/

/-- Runs in two worlds that are the same but for the token of a configuration emit the same events,
show the same and write the same, whatever the outlets take. They send no requests, or requests that
follow each other to the same places: the first ones differ in the field for the token and in
nothing else, and on another host there is no such field. The schema file must not be the
configuration file. -/
theorem run_hides_token {w w' : World} (apart : Apart spot text text' w w') (o : Outlets)
    (args : List String)
    (unread : ∀ a, Arguments.parse args = .ok a →
      ∀ path ∈ a.command.sdl?, ¬ w.files.LeadsTo w.cwd path spot) :
    (w'.runInto o args).events = (w.runInto o args).events ∧
    (w'.runInto o args).value.shown = (w.runInto o args).value.shown ∧
    (∃ written, (w.runInto o args).value.files = o.filesAfter w.files written ∧
      (w'.runInto o args).value.files = o.filesAfter w'.files written) ∧
    ((w.runInto o args).value.requests = [] ∧ (w'.runInto o args).value.requests = [] ∨
      ∃ a c c' full later later', Arguments.parse args = .ok a ∧
        w.Configures a c ∧ w'.Configures a c' ∧ c' = { c with token := c'.token } ∧
        Url.parse? (Config.withoutTrailingSlashes c.apiUrl ++
          Remote.schemaPath c.dataset c.graphqlApi) = some full ∧
        (w.runInto o args).value.requests =
          ⟨Remote.Client.place full, Remote.Client.userField full ++
            Remote.Client.bearerField c.token ++ [("accept", Remote.mediaType)]⟩ :: later ∧
        (w'.runInto o args).value.requests =
          ⟨Remote.Client.place full, Remote.Client.userField full ++
            Remote.Client.bearerField c'.token ++ [("accept", Remote.mediaType)]⟩ :: later' ∧
        List.Forall₂ (Remote.Twins full c.token c'.token) later later') := by
  cases hparse : Arguments.parse args with
  | error halt =>
    rw [runInto, runInto, hparse]
    refine ⟨rfl, ?_, ?_, ?_⟩
    · cases halt <;> rfl
    · exact ⟨none, by cases halt <;> rfl, by cases halt <;> rfl⟩
    · exact .inl ⟨by cases halt <;> rfl, by cases halt <;> rfl⟩
  | ok a =>
    have halike := execute_alike apart (unread a hparse) o
    rw [runInto, runInto, hparse]
    refine ⟨halike.events, halike.value.shown, halike.value.written, ?_⟩
    have hsent := halike.value.requests
    simp only
    generalize (w.execute o a).value.requests = requests at hsent ⊢
    generalize (w'.execute o a).value.requests = requests' at hsent ⊢
    cases hsent with
    | nothing => exact .inl ⟨rfl, rfl⟩
    | @configured c c' _ _ found found' hc sent =>
      cases sent with
      | nothing => exact .inl ⟨rfl, rfl⟩
      | @schema full r r' later later' first redirected =>
        refine .inr ⟨a, c, c', full, later, later', rfl, found, found', hc.same, first.parsed,
          ?_, ?_, redirected⟩
        · rw [first.first]
          rfl
        · rw [first.first']
          rfl

/-! ## A project with a token -/

/-- A project whose configuration file has these contents. -/
def project (contents : String) : World where
  files := ⟨[(["c.json"], .file contents.toUTF8)]⟩
  cwd := []
  environment := []
  server := fun _ _ => some ⟨200, [], "type A\x7bb:C\x7d".toUTF8, true⟩
  elapsed := 0

def keyless : String := "\x7b\"projectId\":\"p\",\"dataset\":\"d\"\x7d"

def keyed : String := "\x7b\"projectId\":\"p\",\"dataset\":\"d\",\"token\":\"s\"\x7d"

/-- A user in the base URL, and no token. -/
def named : String :=
  "\x7b\"projectId\":\"p\",\"dataset\":\"d\",\"apiHost\":\"http://u:v@h\"\x7d"

theorem project_apart : Apart ["c.json"] keyless keyed (project keyless) (project keyed) where
  files :=
    { there := rfl
      replaced := rfl
      denoted := fun _ _ format _ =>
        ⟨⟨"p", "d", "default", none, none, none, none⟩,
          ⟨"p", "d", "default", some "s", none, none, none⟩,
          Config.read_of_both (by decide +kernel) (by decide +kernel) format,
          Config.read_of_both (by decide +kernel) (by decide +kernel) format, rfl, by decide⟩ }
  cwd := rfl
  environment := rfl
  server := fun _ _ _ _ _ _ => rfl
  noClient := rfl
  elapsed := rfl

/-- A fetch without a token and with one. -/
theorem run_hides_token_fetch :
    ((project keyed).run ["-c", "c.json", "schema", "fetch"]).value.shown =
        ((project keyless).run ["-c", "c.json", "schema", "fetch"]).value.shown ∧
      ((project keyless).run ["-c", "c.json", "schema", "fetch"]).value.requests.map (·.headers) =
        [[("accept", "application/graphql")]] ∧
      ((project keyed).run ["-c", "c.json", "schema", "fetch"]).value.requests.map (·.headers) =
        [[("authorization", "Bearer s"), ("accept", "application/graphql")]] := by
  have hparse : Arguments.parse ["-c", "c.json", "schema", "fetch"] =
      .ok ⟨some ⟨"c.json"⟩, none, none, false, false, false, .fetch none⟩ := rfl
  have hsame := run_hides_token project_apart .endless ["-c", "c.json", "schema", "fetch"]
    fun a ha path hpath => by
      rw [hparse] at ha
      cases ha
      cases hpath
  exact ⟨hsame.2.1, by decide +kernel, by decide +kernel⟩

/-- The token shows when the configuration file is read as the schema, and a base URL that names a
user puts one into the header without a token. -/
theorem run_shows_token :
    ¬ (∀ spot text text' w w', Apart spot text text' w w' → ∀ args,
        (w'.run args).value.shown = (w.run args).value.shown) ∧
      ¬ (∀ (w : World) args a c, Arguments.parse args = .ok a → w.Configures a c →
        c.token = none → ∀ request ∈ (w.run args).value.requests,
          ∀ field ∈ request.headers, field.1 ≠ "authorization") := by
  constructor
  · intro h
    have hsame := h _ _ _ _ _ project_apart ["-c", "c.json", "typemap", "--sdl", "c.json"]
    exact absurd hsame (by decide +kernel)
  · intro h
    have found : (project named).Configures
        ⟨some ⟨"c.json"⟩, none, none, false, false, false, .fetch none⟩
        ⟨"p", "d", "default", none, some "http://u:v@h", none, none⟩ :=
      ⟨rfl, ConfigChoice.resolve_eq_ok.1 (by decide +kernel)⟩
    obtain ⟨request, hrequest, hheaders⟩ := List.mem_map.1
      (show [("authorization", "Basic dTp2"), ("accept", "application/graphql")] ∈
        ((project named).run ["-c", "c.json", "schema", "fetch"]).value.requests.map (·.headers) by
          decide +kernel)
    have hno := h (project named) ["-c", "c.json", "schema", "fetch"] _ _ rfl found rfl
      request hrequest
    rw [hheaders] at hno
    exact hno ("authorization", "Basic dTp2") List.mem_cons_self rfl

end World

end CommandLine

end SchemaCatalog
