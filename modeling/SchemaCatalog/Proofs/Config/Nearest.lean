import SchemaCatalog.Proofs.Config.Discovery
import SchemaCatalog.Proofs.Path

/-!
# SchemaCatalog.Proofs.Config.Nearest

The nearest configuration file, without a word about how it is searched for.

`HasFile` says what counts in a directory: a file right below the place to which the directory
leads, so that a directory under one of the known names does not. The candidates of a directory
are then the best name and those behind it (`IsBest.candidates_eq`), and a search ends at the
first directory that has a best name (`find_cases`). `Nearest` is what a search has seen when it
ends, and nothing that it has not seen matters (`Nearest.find_of_differBeyond`).

What it has seen are places, not paths. With two points in the start, a directory that comes later
among those above can be one that was passed before, so a file that is added above the one found
can still come first (`find_changes_with_file_above`).
-/

namespace SchemaCatalog.Config

variable {files files' : FileTree} {cwd : Location} {start dir path : Path} {name : String}

/-! ## Files in a directory -/

/-- A directory has a file under a name; a directory of that name is none. -/
def HasFile (files : FileTree) (cwd : Location) (dir : Path) (name : String) : Prop :=
  ∃ place contents, files.LeadsTo cwd dir place ∧ files.entry? place = some .directory ∧
    files.entry? (place ++ [name]) = some (.file contents)

theorem isName_of_mem (h : name ∈ fileNames) : Path.IsName name := by
  have hall : ∀ name ∈ fileNames, '/' ∉ name.toList ∧ name ≠ "" ∧ name ≠ "." ∧ name ≠ ".." := by
    decide
  obtain ⟨hslash, hempty, hpoint, hpoints⟩ := hall name h
  exact ⟨hslash, hempty, hpoint, hpoints⟩

theorem isFile_join (h : name ∈ fileNames) :
    files.isFile cwd (dir.join name) = true ↔ HasFile files cwd dir name := by
  have hname := isName_of_mem h
  have htext : (dir.join name).text ≠ "" := by
    intro hempty
    have hfile := Path.fileName?_join hname dir
    rw [show dir.join name = ⟨""⟩ from congrArg Path.mk hempty] at hfile
    cases hfile
  simp only [FileTree.isFile_iff, FileTree.resolve_eq_ok, FileTree.leadsTo_join hname]
  constructor
  · rintro ⟨_, contents, _, ⟨place, hlead, hdirectory, rfl⟩, hfile⟩
    exact ⟨place, contents, hlead, hdirectory, hfile⟩
  · rintro ⟨place, contents, hlead, hdirectory, hfile⟩
    exact ⟨_, contents, htext, ⟨place, hlead, hdirectory, rfl⟩, hfile⟩

/-- The names that are preferred to one. -/
def preferred (name : String) : List String := fileNames.takeWhile (· ≠ name)

/-- The names to which one is preferred. -/
def lesser (name : String) : List String := (fileNames.dropWhile (· ≠ name)).tail

theorem fileNames_eq : ∀ name ∈ fileNames, fileNames = preferred name ++ name :: lesser name := by
  decide

/-- A directory has a file under a name and under none that is preferred to it. -/
structure IsBest (files : FileTree) (cwd : Location) (dir : Path) (name : String) : Prop where
  mem : name ∈ fileNames
  first : ∀ other ∈ preferred name, ¬ HasFile files cwd dir other
  there : HasFile files cwd dir name

theorem candidates_eq_nil_iff :
    candidates files cwd dir = [] ↔ ∀ name ∈ fileNames, ¬ HasFile files cwd dir name := by
  simp only [candidates, List.filter_eq_nil_iff, List.forall_mem_map]
  exact forall₂_congr fun name h => by rw [isFile_join h]

/-- The names of the files in a directory that are preferred less than one. -/
def further (files : FileTree) (cwd : Location) (dir : Path) (name : String) : List String :=
  (lesser name).filter fun other => files.isFile cwd (dir.join other)

theorem mem_further (h : name ∈ fileNames) {other : String} (hother : other ∈ lesser name) :
    other ∈ further files cwd dir name ↔ HasFile files cwd dir other := by
  have hmem : other ∈ fileNames := by
    rw [fileNames_eq name h]
    exact List.mem_append_right _ (List.mem_cons_of_mem _ hother)
  rw [further, List.mem_filter, isFile_join hmem, and_iff_right hother]

theorem IsBest.candidates_eq (h : IsBest files cwd dir name) :
    candidates files cwd dir = dir.join name :: (further files cwd dir name).map dir.join := by
  have hpreferred :
      (preferred name).filter (fun other => files.isFile cwd (dir.join other)) = [] := by
    rw [List.filter_eq_nil_iff]
    intro other hother
    have hmem : other ∈ fileNames := (List.takeWhile_sublist _).subset hother
    rw [isFile_join hmem]
    exact h.first other hother
  have hthere : files.isFile cwd (dir.join name) = true := (isFile_join h.mem).2 h.there
  rw [candidates, List.filter_map, fileNames_eq name h.mem, List.filter_append]
  rw [List.filter_cons_of_pos (by simpa using hthere)]
  simp only [Function.comp_def, hpreferred, List.nil_append, List.map_cons]
  rfl

theorem mem_of_mem_takeWhile {α : Type} {test : α → Bool} {before after : List α} {a b : α}
    (ha : test a = false) (h : b ∈ (before ++ a :: after).takeWhile test) : b ∈ before := by
  induction before with
  | nil => simp [ha] at h
  | cons x before ih =>
    cases hx : test x with
    | false => simp [hx] at h
    | true =>
      rw [List.cons_append, List.takeWhile_cons_of_pos hx] at h
      rcases List.mem_cons.1 h with rfl | h
      · exact List.mem_cons_self
      · exact List.mem_cons_of_mem _ (ih h)

theorem exists_isBest (h : candidates files cwd dir ≠ []) : ∃ name, IsBest files cwd dir name := by
  cases hfind : fileNames.find? fun name => files.isFile cwd (dir.join name) with
  | none =>
    refine absurd (candidates_eq_nil_iff.2 fun name hname => ?_) h
    rw [← isFile_join hname]
    exact List.find?_eq_none.1 hfind name hname
  | some name =>
    obtain ⟨hthere, before, after, hsplit, hbefore⟩ := List.find?_eq_some_iff_append.1 hfind
    have hmem : name ∈ fileNames := List.mem_of_find?_eq_some hfind
    refine ⟨name, hmem, fun other hother => ?_, (isFile_join hmem).1 hthere⟩
    have hother : other ∈ before := by
      rw [preferred, hsplit] at hother
      exact mem_of_mem_takeWhile (by simp) hother
    have hno := hbefore other hother
    have hmem' : other ∈ fileNames := by
      rw [hsplit]
      exact List.mem_append_left _ hother
    rw [← isFile_join hmem']
    simpa using hno

/-! ## The search -/

theorem findAmong_append {nearer : List Path} (h : ∀ d ∈ nearer, candidates files cwd d = [])
    (depth : Nat) (dirs : List Path) :
    findAmong files cwd depth (nearer ++ dirs) =
      findAmong files cwd (depth + nearer.length) dirs := by
  induction nearer generalizing depth with
  | nil => rfl
  | cons d nearer ih =>
    obtain ⟨hd, hnearer⟩ := List.forall_mem_cons.1 h
    rw [List.cons_append, findAmong, hd]
    simp only
    rw [ih hnearer, List.length_cons]
    congr 1
    omega

/-- How a search ends: it passes directories without files, and the next one has the file that it
finds and others that it does not. -/
structure Nearest (files : FileTree) (cwd : Location) (start : Path) (nearer : List Path)
    (dir : Path) (name : String) (others : List String) : Prop where
  passed : nearer ++ [dir] <+: start.ancestors
  empty : ∀ d ∈ nearer, ∀ other ∈ fileNames, ¬ HasFile files cwd d other
  best : IsBest files cwd dir name
  listed : List.Sublist others (lesser name)
  complete : ∀ other ∈ lesser name, other ∈ others ↔ HasFile files cwd dir other

/-- What is said about a file that is found so many steps up, with others in its place. -/
def foundEvents (path : Path) (depth : Nat) (shadowed : List Path) : List Event :=
  (if shadowed = [] then [] else [.configShadowed path.text (showPaths shadowed)]) ++
    [.configFound path.text depth]

theorem find_of_isBest {nearer above : List Path}
    (hsplit : start.ancestors = nearer ++ dir :: above)
    (hnearer : ∀ d ∈ nearer, candidates files cwd d = []) (h : IsBest files cwd dir name) :
    find files cwd start = ⟨some (dir.join name),
      foundEvents (dir.join name) nearer.length ((further files cwd dir name).map dir.join)⟩ := by
  rw [find, hsplit, findAmong_append hnearer, findAmong, h.candidates_eq, Nat.zero_add]
  cases further files cwd dir name <;> rfl

theorem nearest_of_isBest {nearer above : List Path}
    (hsplit : start.ancestors = nearer ++ dir :: above)
    (hnearer : ∀ d ∈ nearer, candidates files cwd d = []) (h : IsBest files cwd dir name) :
    Nearest files cwd start nearer dir name (further files cwd dir name) where
  passed := ⟨above, by rw [hsplit]; simp⟩
  empty := fun d hd => candidates_eq_nil_iff.1 (hnearer d hd)
  best := h
  listed := List.filter_sublist
  complete := fun _ hother => mem_further h.mem hother

theorem find_cases (files : FileTree) (cwd : Location) (start : Path) :
    ((∀ dir ∈ start.ancestors, ∀ name ∈ fileNames, ¬ HasFile files cwd dir name) ∧
      find files cwd start = ⟨none, [.configNotFound]⟩) ∨
    ∃ nearer dir name others, Nearest files cwd start nearer dir name others ∧
      find files cwd start = ⟨some (dir.join name),
        foundEvents (dir.join name) nearer.length (others.map dir.join)⟩ := by
  cases hvalue : start.ancestors.find? fun dir => candidates files cwd dir ≠ [] with
  | none =>
    have hempty : ∀ dir ∈ start.ancestors, candidates files cwd dir = [] := by
      simpa using List.find?_eq_none.1 hvalue
    refine .inl ⟨fun dir hdir => candidates_eq_nil_iff.1 (hempty dir hdir), ?_⟩
    rw [find, ← List.append_nil start.ancestors, findAmong_append hempty]
    rfl
  | some dir =>
    obtain ⟨hdir, nearer, above, hsplit, hnearer⟩ := List.find?_eq_some_iff_append.1 hvalue
    have hempty : ∀ d ∈ nearer, candidates files cwd d = [] := by simpa using hnearer
    obtain ⟨name, hbest⟩ := exists_isBest (by simpa using hdir)
    exact .inr ⟨nearer, dir, name, _, nearest_of_isBest hsplit hempty hbest,
      find_of_isBest hsplit hempty hbest⟩

/-! ## What does not count -/

/-- Two trees have the same directories, and the files in which they differ are neither in
directories that a search passes nor, where it ends, under the name it finds or a preferred one. -/
structure DifferBeyond (files files' : FileTree) (cwd : Location) (nearer : List Path)
    (dir : Path) (name : String) : Prop where
  directories : ∀ location,
    files'.entry? location = some .directory ↔ files.entry? location = some .directory
  passed : ∀ d ∈ nearer, ∀ place, files.LeadsTo cwd d place → ∀ other ∈ fileNames,
    files'.entry? (place ++ [other]) = files.entry? (place ++ [other])
  ended : ∀ place, files.LeadsTo cwd dir place → ∀ other ∈ preferred name ++ [name],
    files'.entry? (place ++ [other]) = files.entry? (place ++ [other])

theorem hasFile_congr (same : ∀ location,
      files'.entry? location = some .directory ↔ files.entry? location = some .directory)
    (h : ∀ place, files.LeadsTo cwd dir place →
      files'.entry? (place ++ [name]) = files.entry? (place ++ [name])) :
    HasFile files' cwd dir name ↔ HasFile files cwd dir name := by
  refine exists_congr fun place => exists_congr fun contents => ?_
  rw [FileTree.LeadsTo, FileTree.walk_of_directories same, same]
  exact and_congr_right fun hlead => by rw [h place hlead]

theorem Nearest.find_of_differBeyond {nearer : List Path} {others : List String}
    (h : Nearest files cwd start nearer dir name others)
    (beyond : DifferBeyond files files' cwd nearer dir name) :
    (find files' cwd start).value = some (dir.join name) := by
  obtain ⟨above, hsplit⟩ := h.passed
  rw [List.append_assoc, List.singleton_append] at hsplit
  have hnearer : ∀ d ∈ nearer, candidates files' cwd d = [] := by
    intro d hd
    refine candidates_eq_nil_iff.2 fun other hother => ?_
    rw [hasFile_congr beyond.directories fun place hlead =>
      beyond.passed d hd place hlead other hother]
    exact h.empty d hd other hother
  have hended : ∀ other ∈ preferred name ++ [name],
      (HasFile files' cwd dir other ↔ HasFile files cwd dir other) := fun other hother =>
    hasFile_congr beyond.directories fun place hlead => beyond.ended place hlead other hother
  have hbest : IsBest files' cwd dir name :=
    ⟨h.best.mem, fun other hother => by
      rw [hended other (List.mem_append_left _ hother)]
      exact h.best.first other hother,
      (hended name (by simp)).2 h.best.there⟩
  rw [find_of_isBest hsplit.symm hnearer hbest]

/-- A directory without files leaves the search to the directory above it. -/
theorem find_parent {parent : Path} {above : List Path} (h : start.above = parent :: above)
    (hempty : ∀ name ∈ fileNames, ¬ HasFile files cwd start name) :
    (find files cwd start).value = (find files cwd parent).value := by
  have hcandidates := candidates_eq_nil_iff.2 hempty
  rw [find, find, value_findAmong, value_findAmong, Path.ancestors, Path.ancestors, h,
    Path.above_parent h, List.findSome?_cons, hcandidates]
  rfl

/-! ## Formats -/

theorem format_of_mem : ∀ name ∈ fileNames,
    (Format.of? (((Path.extensionOf? name.toList).map String.ofList).getD "") name).isSome := by
  decide

theorem load_of_format {contents : String} {format : Format} {other : Path}
    (h : Format.of? (path.extension?.getD "") (path.fileName?.getD "") = some format) :
    (load contents path).value ≠ .error (.unsupportedFormat other) := by
  simp only [load, Logged.value_bind, h]
  cases format.read contents with
  | error fault => simp
  | ok c =>
    simp only [validate]
    cases c.fault? with
    | none => exact fun h => nomatch h
    | some fault => exact fun h => nomatch h

theorem load_join (h : name ∈ fileNames) (dir : Path) (contents : String) (other : Path) :
    (load contents (dir.join name)).value ≠ .error (.unsupportedFormat other) := by
  have hfile := Path.fileName?_join (isName_of_mem h) dir
  obtain ⟨format, hformat⟩ := Option.isSome_iff_exists.1 (format_of_mem name h)
  have hjoin : Format.of? ((dir.join name).extension?.getD "")
      ((dir.join name).fileName?.getD "") = some format := by
    rw [Path.extension?, hfile]
    exact hformat
  exact load_of_format hjoin

/-! ## The nearest file -/

/-- A configuration is found exactly if a directory on the way up has a file under one of the known
names. It is the best one in the nearest such directory, and the others there are reported, if there
are any. Files matter only in the directories that are passed, and where the search ends under the
name it finds or a preferred one. What is found has a format, and a directory without files leaves
the search to the one above it. -/
theorem find_nearest (files : FileTree) (cwd : Location) (start : Path) :
    ((find files cwd start).value.isSome ↔
      ∃ dir ∈ start.ancestors, ∃ name ∈ fileNames, HasFile files cwd dir name) ∧
    ((find files cwd start).value = none → (find files cwd start).events = [.configNotFound]) ∧
    (∀ path, (find files cwd start).value = some path → ∃ nearer dir name others,
      Nearest files cwd start nearer dir name others ∧ path = dir.join name ∧
      (find files cwd start).events = foundEvents path nearer.length (others.map dir.join) ∧
      ((∃ event ∈ (find files cwd start).events, event.level = .warn) ↔ others ≠ []) ∧
      (∀ files', DifferBeyond files files' cwd nearer dir name →
        (find files' cwd start).value = some path) ∧
      ∀ contents other, (load contents path).value ≠ .error (.unsupportedFormat other)) ∧
    ∀ parent above, start.above = parent :: above →
      (∀ name ∈ fileNames, ¬ HasFile files cwd start name) →
      (find files cwd start).value = (find files cwd parent).value := by
  refine ⟨?_, ?_, ?_, fun parent above h hempty => find_parent h hempty⟩
  · rcases find_cases files cwd start with
      ⟨hnone, hfind⟩ | ⟨nearer, dir, name, others, hnearest, hfind⟩
    · simp only [hfind, Option.isSome_none, Bool.false_eq_true, false_iff]
      rintro ⟨dir, hdir, name, hname, hthere⟩
      exact hnone dir hdir name hname hthere
    · simp only [hfind, Option.isSome_some, true_iff]
      exact ⟨dir, hnearest.passed.subset (by simp), name, hnearest.best.mem, hnearest.best.there⟩
  · rcases find_cases files cwd start with ⟨_, hfind⟩ | ⟨_, _, _, _, _, hfind⟩
    · exact fun _ => by rw [hfind]
    · exact fun h => by rw [hfind] at h; cases h
  · intro path hpath
    rcases find_cases files cwd start with
      ⟨_, hfind⟩ | ⟨nearer, dir, name, others, hnearest, hfind⟩
    · rw [hfind] at hpath
      cases hpath
    · rw [hfind] at hpath
      cases hpath
      refine ⟨nearer, dir, name, others, hnearest, rfl, by rw [hfind], ?_, fun files' beyond =>
        hnearest.find_of_differBeyond beyond, load_join hnearest.best.mem dir⟩
      rw [hfind]
      cases others with
      | nil => simp [foundEvents, Event.level]
      | cons other others => simp [foundEvents, Event.level]

/-- Two files in a directory, and below it a directory that poses as a better one. -/
def posing : FileTree :=
  ⟨[(["a"], .directory), (["a", "b"], .directory), (["a", "b", ".typemaprc.yml"], .directory),
    (["a", "typemap.config.json"], .file "".toUTF8), (["a", ".typemaprc"], .file "".toUTF8)]⟩

theorem differBeyond_posing : DifferBeyond posing
    (posing.set [".typemaprc.yml"] (.file "".toUTF8)) [] [⟨"/a/b"⟩] ⟨"/a"⟩ ".typemaprc" := by
  have haway : ∀ path place place' other, posing.LeadsTo [] path place' → place' ≠ [] →
      posing.LeadsTo [] path place →
      FileTree.entry? (posing.set [".typemaprc.yml"] (.file "".toUTF8)) (place ++ [other]) =
        posing.entry? (place ++ [other]) := by
    intro path place place' other hlead' hne hlead
    obtain rfl : place' = place := Except.ok.inj (hlead'.symm.trans hlead)
    obtain ⟨first, place, rfl⟩ := List.exists_cons_of_ne_nil hne
    exact FileTree.entry?_set_of_ne (by simp) _
  have hvacant : posing.Vacant [".typemaprc.yml"] := by
    have hnone : posing.entry? [".typemaprc.yml"] = none :=
      Option.isNone_iff_eq_none.1 (by decide +kernel)
    rw [FileTree.Vacant, hnone]
    simp
  refine ⟨FileTree.directory_set hvacant, ?_, ?_⟩
  · intro d hd place hlead other _
    obtain rfl := List.mem_singleton.1 hd
    exact haway _ place ["a", "b"] other (by decide +kernel) (by decide) hlead
  · intro place hlead other _
    exact haway _ place ["a"] other (by decide +kernel) (by decide) hlead

theorem find_nearest_posing :
    (find posing [] ⟨"/a/b"⟩).value = some ⟨"/a/.typemaprc"⟩ ∧
    (find posing [] ⟨"/a/b"⟩).events = [.configShadowed "/a/.typemaprc"
      "[\"/a/typemap.config.json\"]", .configFound "/a/.typemaprc" 1] ∧
    (find (posing.set [".typemaprc.yml"] (.file "".toUTF8)) [] ⟨"/a/b"⟩).value =
      some ⟨"/a/.typemaprc"⟩ ∧
    (find posing [] ⟨"/a/b"⟩).value = (find posing [] ⟨"/a"⟩).value := by
  have hfound : (find posing [] ⟨"/a/b"⟩).value = some ⟨"/a/.typemaprc"⟩ := by decide +kernel
  have hcandidates : candidates posing [] ⟨"/a/b"⟩ = [] := by decide +kernel
  have hempty := candidates_eq_nil_iff.1 hcandidates
  have habove : (⟨"/a/b"⟩ : Path).ancestors = [⟨"/a/b"⟩, ⟨"/a"⟩, ⟨"/"⟩] := by decide +kernel
  obtain ⟨-, -, hsome, hparent⟩ := find_nearest posing [] ⟨"/a/b"⟩
  obtain ⟨nearer, dir, name, others, hnearest, hpath, hevents, -, hbeyond, -⟩ := hsome _ hfound
  have hpassed := hnearest.passed
  rw [habove] at hpassed
  refine ⟨hfound, by decide +kernel, ?_, hparent ⟨"/a"⟩ [⟨"/"⟩] (by decide +kernel) hempty⟩
  -- The search ends one step up: not before, and there is a file.
  cases nearer with
  | nil =>
    simp only [List.nil_append, List.cons_prefix_cons] at hpassed
    obtain ⟨rfl, -⟩ := hpassed
    exact absurd hnearest.best.there (hempty name hnearest.best.mem)
  | cons d nearer =>
    cases nearer with
    | nil =>
      simp only [List.cons_append, List.nil_append, List.cons_prefix_cons] at hpassed
      obtain ⟨rfl, rfl, -⟩ := hpassed
      have hname : ∀ name ∈ fileNames,
          (⟨"/a/.typemaprc"⟩ : Path) = Path.join ⟨"/a"⟩ name → name = ".typemaprc" := by
        decide +kernel
      obtain rfl := hname name hnearest.best.mem hpath
      exact hbeyond _ differBeyond_posing
    | cons d' nearer =>
      simp only [List.cons_append, List.cons_prefix_cons] at hpassed
      obtain ⟨-, rfl, -⟩ := hpassed
      have hthere : posing.isFile [] (Path.join ⟨"/a"⟩ ".typemaprc") = true := by decide +kernel
      exact absurd ((isFile_join (by decide)).1 hthere)
        (hnearest.empty ⟨"/a"⟩ (by simp) ".typemaprc" (by decide))

/-- A directory with a configuration, through which a path leads back to where it started. -/
def passedThrough : FileTree :=
  ⟨[(["a"], .directory), (["a", ".typemaprc.yml"], .file "".toUTF8)]⟩

/-- Such a path makes the directory above the one that is found the first of all, so a file that is
added to it is found instead. -/
theorem find_changes_with_file_above :
    (find passedThrough [] ⟨"a/.."⟩).value = some ⟨"a/.typemaprc.yml"⟩ ∧
    (⟨""⟩ : Path) ∈ (⟨"a"⟩ : Path).above ∧ passedThrough.LeadsTo [] ⟨""⟩ [] ∧
    (find (passedThrough.set ([] ++ [".typemaprc.yml"]) (.file "".toUTF8)) [] ⟨"a/.."⟩).value =
      some ⟨"a/../.typemaprc.yml"⟩ := by
  decide +kernel

end SchemaCatalog.Config
