import SchemaCatalog.CommandLine.ConfigChoice
import SchemaCatalog.Proofs.Config.Discovery
import SchemaCatalog.Proofs.Config.Loading

/-!
# SchemaCatalog.Proofs.CommandLine.ConfigChoice

The configuration of a run, and what it depends on.

A configuration is valid twice over: the one in the file by itself, so that no override repairs a
file, and the one that the overrides make of it. The second check is left out when there is
nothing to replace; then it is the first one again (`override_of_no_overrides`). That makes every
configuration of a run valid, without a look at formats.

What is found depends on the paths that are consulted, and on those alone: a path that is named,
or else those that the search seeks.
-/

namespace SchemaCatalog.CommandLine.ConfigChoice

variable {choice : ConfigChoice} {files : FileTree} {cwd : Location} {start path : Path}
  {c : Config}

/-- A choice yields a configuration: there is a file, it holds a configuration that is valid by
itself, and what the overrides make of that one is valid. -/
def Yields (choice : ConfigChoice) (files : FileTree) (cwd : Location) (start : Path)
    (c : Config) : Prop :=
  ∃ path loaded, choice.path.or (Config.find files cwd start).value = some path ∧
    Config.HoldsAt files cwd path loaded ∧ (choice.override loaded).IsValid ∧
    c = choice.override loaded

theorem value_file :
    (choice.file files cwd start).value = choice.path.or (Config.find files cwd start).value := by
  rw [file]
  cases choice.path with
  | none => rfl
  | some path => rfl

theorem override_of_no_overrides (h : choice.overrides = false) (c : Config) :
    choice.override c = c := by
  simp only [overrides, Bool.or_eq_false_iff, Option.isSome_eq_false_iff, Option.isNone_iff_eq_none]
    at h
  rw [override, h.1, h.2]
  rfl

theorem resolveAt_eq_ok : (choice.resolveAt files cwd path).value = .ok c ↔
    ∃ loaded, Config.HoldsAt files cwd path loaded ∧ (choice.override loaded).IsValid ∧
      c = choice.override loaded := by
  simp only [resolveAt, Logged.value_bind, ← Config.loadFile_eq_ok]
  cases hload : (Config.loadFile files cwd path).value with
  | error error => simp
  | ok loaded =>
    obtain ⟨_, _, _, _, _, hvalid⟩ := Config.loadFile_eq_ok.1 hload
    simp only [Except.ok.injEq, exists_eq_left']
    cases hoverrides : choice.overrides with
    | false =>
      -- The second check is left out, and would be the first one again.
      rw [override_of_no_overrides hoverrides]
      simp [hvalid, eq_comm]
    | true =>
      have hcheck : ((choice.override loaded).validate path).value = .ok () ↔
          (choice.override loaded).IsValid := Config.validate_eq_ok
      rw [← hcheck]
      simp only [if_true]
      cases hchecked : ((choice.override loaded).validate path).value with
      | error error => simp [hchecked]
      | ok u => simp [hchecked, eq_comm]

theorem resolve_eq_ok :
    (choice.resolve files cwd start).value = .ok c ↔ choice.Yields files cwd start c := by
  simp only [resolve, Logged.value_bind, value_file, Yields]
  cases choice.path.or (Config.find files cwd start).value with
  | none => simp
  | some path =>
    simp only [resolveAt_eq_ok, Option.some.injEq, exists_and_left, exists_eq_left']

/-! ## What the configuration depends on -/

/-- The paths that are consulted for a configuration. -/
def consulted (choice : ConfigChoice) (files : FileTree) (cwd : Location) (start : Path) :
    List Path :=
  match choice.path with
  | some path => [path]
  | none => Config.sought files cwd start.ancestors

theorem resolve_named (h : choice.path = some path) :
    choice.resolve files cwd start = choice.resolveAt files cwd path := by
  rw [resolve, file, h]
  rfl

theorem resolve_of_path (h : choice.path = some path) {files' : FileTree}
    (hread : files'.readText cwd path = files.readText cwd path) (start' : Path) :
    choice.resolve files' cwd start' = choice.resolve files cwd start := by
  rw [resolve_named h, resolve_named h, resolveAt, resolveAt, Config.loadFile_congr hread]

/-- A file that is written where no consulted path leads makes no difference. -/
theorem yields_set {spot : Location} {contents : ByteArray} (vacant : files.Vacant spot)
    (away : ∀ p ∈ choice.consulted files cwd start, ¬ files.LeadsTo cwd p spot) :
    choice.Yields (files.set spot (.file contents)) cwd start c ↔
      choice.Yields files cwd start c := by
  simp only [Yields]
  cases hpath : choice.path with
  | some path =>
    simp only [consulted, hpath, List.mem_singleton, forall_eq] at away
    simp only [Option.some_or, Option.some.injEq, exists_and_left, exists_eq_left',
      Config.holdsAt_set vacant away]
  | none =>
    simp only [consulted, hpath] at away
    simp only [Option.none_or, Config.find, Config.value_findAmong_set vacant away]
    refine exists_congr fun path => exists_congr fun loaded => and_congr_right fun hfound => ?_
    -- What is found is itself among the paths that are sought.
    rw [Config.holdsAt_set vacant (away path (Config.mem_sought hfound))]

/-! ## The configurations of runs -/

/-- What is found is valid twice over, and a named file decides alone. -/
theorem resolve_gives_valid (choice : ConfigChoice) (files : FileTree) (cwd : Location)
    (start : Path) :
    (∀ c, (choice.resolve files cwd start).value = .ok c ↔
      ∃ path loaded, choice.path.or (Config.find files cwd start).value = some path ∧
        Config.HoldsAt files cwd path loaded ∧
        c = { loaded with
          dataset := choice.dataset.getD loaded.dataset
          graphqlApi := choice.api.getD loaded.graphqlApi } ∧ c.IsValid) ∧
    (∀ c, (choice.resolve files cwd start).value = .ok c → c.IsValid) ∧
    ∀ path, choice.path = some path →
      (∀ files' start', files'.readText cwd path = files.readText cwd path →
        choice.resolve files' cwd start' = choice.resolve files cwd start) ∧
      ∀ spot contents start' c, files.Vacant spot → ¬ files.LeadsTo cwd path spot →
        ((choice.resolve (files.set spot (.file contents)) cwd start').value = .ok c ↔
          (choice.resolve files cwd start).value = .ok c) := by
  refine ⟨fun c => ?_, fun c h => ?_, fun path hpath => ⟨fun files' start' hread => ?_, ?_⟩⟩
  · rw [resolve_eq_ok, Yields]
    refine exists_congr fun path => exists_congr fun loaded => ?_
    refine and_congr_right fun _ => and_congr_right fun _ => ?_
    constructor
    · rintro ⟨hvalid, rfl⟩
      exact ⟨rfl, hvalid⟩
    · rintro ⟨rfl, hvalid⟩
      exact ⟨hvalid, rfl⟩
  · obtain ⟨path, loaded, _, _, hvalid, rfl⟩ := resolve_eq_ok.1 h
    exact hvalid
  · exact resolve_of_path hpath hread start'
  · intro spot contents start' c vacant away
    have hstart : choice.resolve (files.set spot (.file contents)) cwd start' =
        choice.resolve (files.set spot (.file contents)) cwd start :=
      resolve_of_path hpath rfl start'
    rw [hstart, resolve_eq_ok, resolve_eq_ok]
    exact yields_set vacant (by simpa [consulted, hpath] using away)

/-- A directory below one with a configuration. -/
def nested : FileTree :=
  ⟨[(["a"], .directory), (["a", "b"], .directory),
    (["a", ".typemaprc.json"], .file "\x7b\"projectId\":\"p\",\"dataset\":\"d\"\x7d".toUTF8)]⟩

theorem resolve_gives_valid_nested :
    ∃ c, (resolve ⟨none, some "staging", none⟩ nested ["a", "b"] ⟨"/a/b"⟩).value = .ok c ∧
      c.dataset = "staging" ∧ c.IsValid := by
  have hfound : (resolve ⟨none, some "staging", none⟩ nested ["a", "b"] ⟨"/a/b"⟩).value.toOption =
      some ⟨"p", "staging", "default", none, none, none, none⟩ := by
    decide +kernel
  have hvalid := (resolve_gives_valid ⟨none, some "staging", none⟩ nested ["a", "b"] ⟨"/a/b"⟩).2.1
  generalize (resolve ⟨none, some "staging", none⟩ nested ["a", "b"] ⟨"/a/b"⟩).value = result
    at hfound hvalid
  cases result with
  | error failure => cases hfound
  | ok c =>
    cases hfound
    exact ⟨_, rfl, rfl, hvalid _ rfl⟩

end SchemaCatalog.CommandLine.ConfigChoice
