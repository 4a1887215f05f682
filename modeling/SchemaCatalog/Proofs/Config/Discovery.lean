import SchemaCatalog.Config.Discovery
import SchemaCatalog.Proofs.FileTree

/-!
# SchemaCatalog.Proofs.Config.Discovery

Which files decide where the nearest configuration is.

The search goes up until a directory has a file under one of the known names (`value_findAmong`),
and asks for every known name in the directories it passes and in the one where it ends: these
are the paths it seeks. A file that is written under none of them leaves the result as it is
(`value_findAmong_set`), by induction on the directories.
-/

namespace SchemaCatalog.Config

variable {files : FileTree} {cwd : Location}

/-- The paths that are asked for among directories. -/
def sought (files : FileTree) (cwd : Location) : List Path → List Path
  | [] => []
  | dir :: above =>
    fileNames.map dir.join ++ if candidates files cwd dir = [] then sought files cwd above else []

/-- The nearest configuration file is the best one in the first directory that has one. -/
theorem value_findAmong (depth : Nat) (dirs : List Path) :
    (findAmong files cwd depth dirs).value =
      dirs.findSome? fun dir => (candidates files cwd dir).head? := by
  induction dirs generalizing depth with
  | nil => rfl
  | cons dir above ih =>
    rw [findAmong, List.findSome?_cons]
    cases candidates files cwd dir with
    | nil => exact ih (depth + 1)
    | cons best others => cases others <;> rfl

theorem mem_sought {depth : Nat} {dirs : List Path} {path : Path}
    (h : (findAmong files cwd depth dirs).value = some path) : path ∈ sought files cwd dirs := by
  rw [value_findAmong] at h
  induction dirs with
  | nil => cases h
  | cons dir above ih =>
    rw [List.findSome?_cons] at h
    rw [sought, List.mem_append]
    cases hcandidates : candidates files cwd dir with
    | nil =>
      -- No file here, so the search and what it seeks go on above.
      rw [hcandidates] at h
      exact .inr (by simpa using ih h)
    | cons best others =>
      rw [hcandidates] at h
      cases h
      have hbest : path ∈ candidates files cwd dir := by rw [hcandidates]; exact List.mem_cons_self
      exact .inl (List.mem_filter.1 hbest).1

section Written

variable {spot : Location} {contents : ByteArray} (vacant : files.Vacant spot)
include vacant

theorem candidates_set {dir : Path}
    (away : ∀ p ∈ fileNames.map dir.join, ¬ files.LeadsTo cwd p spot) :
    candidates (files.set spot (.file contents)) cwd dir = candidates files cwd dir :=
  List.filter_congr fun p hp => FileTree.isFile_set vacant (away p hp)

theorem value_findAmong_set {dirs : List Path}
    (away : ∀ p ∈ sought files cwd dirs, ¬ files.LeadsTo cwd p spot) (depth : Nat) :
    (findAmong (files.set spot (.file contents)) cwd depth dirs).value =
      (findAmong files cwd depth dirs).value := by
  rw [value_findAmong, value_findAmong]
  induction dirs with
  | nil => rfl
  | cons dir above ih =>
    rw [sought, List.forall_mem_append] at away
    rw [List.findSome?_cons, List.findSome?_cons, candidates_set vacant away.1]
    cases hcandidates : candidates files cwd dir with
    | nil => exact ih (by simpa [hcandidates] using away.2)
    | cons best others => rfl

end Written

/-! ## Other contents in the place of a file -/

section Replaced

variable {spot : Location} {contents old : ByteArray}
  (there : files.entry? spot = some (.file old))
include there

theorem candidates_replace (dir : Path) :
    candidates (files.set spot (.file contents)) cwd dir = candidates files cwd dir :=
  List.filter_congr fun p _ => FileTree.isFile_replace there cwd p

/-- The search is the same, with what it says on the way. -/
theorem findAmong_replace (depth : Nat) (dirs : List Path) :
    findAmong (files.set spot (.file contents)) cwd depth dirs =
      findAmong files cwd depth dirs := by
  induction dirs generalizing depth with
  | nil => rw [findAmong, findAmong]
  | cons dir above ih =>
    rw [findAmong, findAmong, candidates_replace there]
    cases candidates files cwd dir with
    | nil => exact ih (depth + 1)
    | cons best others => rfl

end Replaced

end SchemaCatalog.Config
