import SchemaCatalog.Config.Loading
import SchemaCatalog.Http.Exchange
import SchemaCatalog.Proofs.FileTree
import SchemaCatalog.Proofs.TwoRuns

/-!
# SchemaCatalog.Proofs.Config.Token

Loading configurations that differ by their tokens.

No rule for configurations is about the token and no event shows it, so two files that denote the
same configuration but for the token are loaded alike, with the same events, and with the same
error where there is one (`loadFile_alike`). What comes out differs by the token again.

Whether a token can be sent is the one thing about it that does show later, so two configurations
only count as apart by their tokens when both can be sent or neither can.
-/

namespace SchemaCatalog.Config

open Logged (Alike)

/-- Two configurations differ by their tokens at most, and both tokens can be sent or neither. -/
structure TokensApart (c c' : Config) : Prop where
  same : c' = { c with token := c'.token }
  sendable : c'.token.all Http.isFieldValue = c.token.all Http.isFieldValue

/-- A text that is a configuration in YAML and in JSON is that one in every format. -/
theorem read_of_both {text : String} {c : Config} (hyaml : readYaml? text = some c)
    (hjson : readJson? text = some c) (format : Format) : format.read text = .ok c := by
  cases format <;> simp [Format.read, hyaml, hjson]

/-- Two contents for a path denote configurations that differ by their tokens at most, in the
format that the path announces. -/
def ContentsApart (path : Path) (text text' : String) : Prop :=
  ∀ format, Format.of? (path.extension?.getD "") (path.fileName?.getD "") = some format →
    ∃ c c', format.read text = .ok c ∧ format.read text' = .ok c' ∧ TokensApart c c'

/-- Two file trees differ in the contents of one file, and there by the token of a configuration
at most. -/
structure FilesApart (spot : Location) (text text' : String) (cwd : Location)
    (files files' : FileTree) : Prop where
  there : files.entry? spot = some (.file text.toUTF8)
  replaced : files' = files.set spot (.file text'.toUTF8)
  denoted : ∀ path, files.LeadsTo cwd path spot → ContentsApart path text text'

namespace TokensApart

variable {c c' : Config}

theorem refl (c : Config) : TokensApart c c := ⟨rfl, rfl⟩

theorem dataset_eq (h : TokensApart c c') : c'.dataset = c.dataset := by
  rw [h.same]

theorem graphqlApi_eq (h : TokensApart c c') : c'.graphqlApi = c.graphqlApi := by
  rw [h.same]

theorem typePrefix_eq (h : TokensApart c c') : c'.typePrefix = c.typePrefix := by
  rw [h.same]

theorem apiUrl_eq (h : TokensApart c c') : c'.apiUrl = c.apiUrl := by
  rw [h.same]
  rfl

theorem validate_eq (h : TokensApart c c') (path : Path) :
    c'.validate path = c.validate path := by
  rw [h.same]
  rfl

end TokensApart

variable {path : Path} {text text' : String}

theorem load_alike (h : ContentsApart path text text') :
    Alike (Agree TokensApart) (load text path) (load text' path) := by
  rw [load, load]
  refine .after _ fun _ => ?_
  cases hformat : Format.of? (path.extension?.getD "") (path.fileName?.getD "") with
  | none => exact .pure (.error _)
  | some format =>
    obtain ⟨c, c', hread, hread', hapart⟩ := h format hformat
    simp only [hread, hread', hapart.validate_eq]
    exact (Alike.refl (Agree.refl fun _ => rfl) (c.validate path)).andThen fun _ _ _ =>
      .pure (.ok hapart)

variable {spot cwd : Location} {files files' : FileTree}

theorem FilesApart.readText (h : FilesApart spot text text' cwd files files') (path : Path) :
    files'.readText cwd path = files.readText cwd path ∨
      files.readText cwd path = .ok text ∧ files'.readText cwd path = .ok text' ∧
        ContentsApart path text text' := by
  have hself : files'.entry? spot = some (.file text'.toUTF8) := by
    rw [h.replaced]
    exact FileTree.entry?_set_self (FileTree.ne_nil_of_file h.there) _
  by_cases hlead : files.LeadsTo cwd path spot
  · by_cases hempty : path.text = ""
    · exact .inl (by rw [FileTree.readText_of_empty hempty, FileTree.readText_of_empty hempty])
    · have hlead' : files'.LeadsTo cwd path spot := by
        rw [h.replaced, FileTree.LeadsTo, FileTree.walk_replace h.there]
        exact hlead
      exact .inr ⟨FileTree.readText_of_file h.there hempty hlead,
        FileTree.readText_of_file hself hempty hlead', h.denoted path hlead⟩
  · refine .inl ?_
    rw [h.replaced]
    exact FileTree.readText_replace h.there hlead

theorem loadFile_alike (h : FilesApart spot text text' cwd files files') (path : Path) :
    Alike (Agree TokensApart) (loadFile files cwd path) (loadFile files' cwd path) := by
  rw [loadFile, loadFile]
  refine .after _ fun _ => ?_
  rcases h.readText path with hsame | ⟨hread, hread', hapart⟩
  · rw [hsame]
    exact .refl (Agree.refl .refl) _
  · simp only [hread, hread']
    refine (load_alike hapart).andThen fun c c' hc => ?_
    rw [hc.dataset_eq, hc.graphqlApi_eq]
    exact .after _ fun _ => .pure (.ok hc)

end SchemaCatalog.Config
