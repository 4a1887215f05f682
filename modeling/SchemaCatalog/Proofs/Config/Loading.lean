import SchemaCatalog.Config.Loading
import SchemaCatalog.Proofs.FileTree

/-!
# SchemaCatalog.Proofs.Config.Loading

Which configurations files hold.

The check of a configuration and the rules for one are two definitions, `fault?` and `IsValid`;
`fault?_eq_none_iff` says that they agree. They differ at the dataset, where the check also asks
for a character that is no blank: the characters of datasets are none. `HoldsAt` is what a file
has to be for a configuration to come out of it, and `loadFile` gives exactly these
(`loadFile_eq_ok`): it adds no rule and forgets none, whatever the format.
-/

namespace SchemaCatalog

theorem Logged.value_andThen_eq_ok {ε α β : Type} {m : Logged (Except ε α)}
    {f : α → Logged (Except ε β)} {b : β} :
    (m.andThen f).value = .ok b ↔ ∃ a, m.value = .ok a ∧ (f a).value = .ok b := by
  obtain ⟨value, events⟩ := m
  cases value with
  | error e => simp [andThen]
  | ok a => simp [andThen]

namespace Config

/-! ## The rules -/

theorem isBlankText_eq_false {text : String} :
    Text.isBlankText text = false ↔ ∃ ch ∈ text.toList, Text.isBlank ch = false := by
  rw [Text.isBlankText, List.all_eq_false]
  simp only [Bool.not_eq_true]

theorem isBlank_of_isDatasetChar {ch : Char} (h : isDatasetChar ch = true) :
    Text.isBlank ch = false := by
  -- Blanks are tabs, line ends, the space, and codes from 133 on.
  have hcode : (97 ≤ ch.toNat ∧ ch.toNat ≤ 122) ∨ (48 ≤ ch.toNat ∧ ch.toNat ≤ 57) ∨
      ch.toNat = 95 ∨ ch.toNat = 45 := by
    simp only [isDatasetChar, Bool.or_eq_true, Bool.and_eq_true, decide_eq_true_eq] at h
    rcases h with ((⟨hlow, hhigh⟩ | ⟨hlow, hhigh⟩) | rfl) | rfl
    · exact .inl ⟨hlow, hhigh⟩
    · exact .inr (.inl ⟨hlow, hhigh⟩)
    · exact .inr (.inr (.inl rfl))
    · exact .inr (.inr (.inr rfl))
  simp only [Text.isBlank, Text.isBlankCode, Bool.or_eq_false_iff, Bool.and_eq_false_iff,
    decide_eq_false_iff_not]
  omega

theorem dataset_rules {text : String} :
    Text.isBlankText text = false ∧ text.toList.all isDatasetChar = true ↔
      text.toList ≠ [] ∧ ∀ ch ∈ text.toList, isDatasetChar ch = true := by
  rw [isBlankText_eq_false, List.all_eq_true]
  constructor
  · rintro ⟨⟨ch, hch, _⟩, hall⟩
    exact ⟨List.ne_nil_of_mem hch, hall⟩
  · rintro ⟨hne, hall⟩
    obtain ⟨ch, hch⟩ := List.exists_mem_of_ne_nil _ hne
    exact ⟨⟨ch, hch, isBlank_of_isDatasetChar (hall ch hch)⟩, hall⟩

theorem fault?_eq_none_iff (c : Config) : c.fault? = none ↔ c.IsValid := by
  have hchecks : c.fault? = none ↔ Text.isBlankText c.projectId = false ∧
      (Text.isBlankText c.dataset = false ∧ c.dataset.toList.all isDatasetChar = true) ∧
      Text.isBlankText c.graphqlApi = false := by
    rw [fault?]
    cases Text.isBlankText c.projectId <;> cases Text.isBlankText c.dataset <;>
      cases c.dataset.toList.all isDatasetChar <;> cases Text.isBlankText c.graphqlApi <;> simp
  rw [hchecks, isBlankText_eq_false, dataset_rules, isBlankText_eq_false]
  constructor
  · rintro ⟨hproject, ⟨hne, hall⟩, hapi⟩
    exact ⟨hproject, hne, hall, hapi⟩
  · rintro ⟨hproject, hne, hall, hapi⟩
    exact ⟨hproject, ⟨hne, hall⟩, hapi⟩

theorem validate_eq_ok {c : Config} {path : Path} {u : Unit} :
    (c.validate path).value = .ok u ↔ c.IsValid := by
  rw [← fault?_eq_none_iff, validate]
  cases c.fault? with
  | some fault => simp
  | none => simp

/-! ## Files -/

/-- A file holds a configuration: it can be read as text, its name says how it is written, that
is what it denotes, and it is valid by itself. -/
def HoldsAt (files : FileTree) (cwd : Location) (path : Path) (c : Config) : Prop :=
  ∃ contents format, files.readText cwd path = .ok contents ∧
    Format.of? (path.extension?.getD "") (path.fileName?.getD "") = some format ∧
    format.read contents = .ok c ∧ c.IsValid

theorem load_eq_ok {contents : String} {path : Path} {c : Config} :
    (load contents path).value = .ok c ↔
      ∃ format, Format.of? (path.extension?.getD "") (path.fileName?.getD "") = some format ∧
        format.read contents = .ok c ∧ c.IsValid := by
  simp only [load, Logged.value_bind]
  cases Format.of? (path.extension?.getD "") (path.fileName?.getD "") with
  | none => simp
  | some format =>
    cases hread : format.read contents with
    | error fault => simp [hread]
    | ok found =>
      simp only [Logged.value_andThen_eq_ok, validate_eq_ok, Logged.value_pure, Except.ok.injEq,
        Option.some.injEq, exists_eq_left', hread]
      constructor
      · rintro ⟨u, hvalid, rfl⟩
        exact ⟨rfl, hvalid⟩
      · rintro ⟨rfl, hvalid⟩
        exact ⟨(), hvalid, rfl⟩

variable {files : FileTree} {cwd : Location} {path : Path}

theorem loadFile_eq_ok {c : Config} :
    (loadFile files cwd path).value = .ok c ↔ HoldsAt files cwd path c := by
  simp only [loadFile, Logged.value_bind, HoldsAt]
  cases files.readText cwd path with
  | error cause => simp
  | ok contents =>
    simp only [Logged.value_andThen_eq_ok, load_eq_ok, Logged.value_bind, Logged.value_pure,
      Except.ok.injEq, exists_and_left, exists_eq_left', exists_eq_right]

theorem loadFile_congr {files' : FileTree}
    (h : files'.readText cwd path = files.readText cwd path) :
    loadFile files' cwd path = loadFile files cwd path := by
  rw [loadFile, loadFile, h]

theorem holdsAt_set {spot : Location} {contents : ByteArray} (vacant : files.Vacant spot)
    (away : ¬ files.LeadsTo cwd path spot) (c : Config) :
    HoldsAt (files.set spot (.file contents)) cwd path c ↔ HoldsAt files cwd path c := by
  simp only [HoldsAt, FileTree.readText_set vacant away]

end Config

end SchemaCatalog
