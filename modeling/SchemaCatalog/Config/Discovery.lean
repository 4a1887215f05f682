import SchemaCatalog.Config.Loading
import SchemaCatalog.Text.Debug

/-!
# SchemaCatalog.Config.Discovery

Where the configuration of a directory is.

It is the most preferred of the known file names in the nearest directory that has one of them,
going up from the start. Directories under these names do not count.
-/

namespace SchemaCatalog.Config

/-- The names of configuration files, the most preferred first. -/
def fileNames : List String :=
  [".typemaprc.yml", ".typemaprc.yaml", ".typemaprc.json", plainFileName,
    "typemap.config.yml", "typemap.config.yaml", "typemap.config.json"]

/-- The configuration files in a directory, the most preferred first. -/
def candidates (files : FileTree) (cwd : Location) (dir : Path) : List Path :=
  (fileNames.map dir.join).filter (files.isFile cwd)

/-- A list of paths as it is shown in events. -/
def showPaths (paths : List Path) : String :=
  "[" ++ ", ".intercalate (paths.map fun path => Text.debug path.text) ++ "]"

/-- The nearest configuration file among directories, the first of which is `depth` steps up. -/
def findAmong (files : FileTree) (cwd : Location) : (depth : Nat) → List Path →
    Logged (Option Path)
  | _, [] => do
    Logged.emit .configNotFound
    return none
  | depth, dir :: above =>
    match candidates files cwd dir with
    | [] => findAmong files cwd (depth + 1) above
    | best :: others => do
      if !others.isEmpty then
        Logged.emit (.configShadowed best.text (showPaths others))
      Logged.emit (.configFound best.text depth)
      return some best

/-- The nearest configuration file of a directory and those above it. -/
def find (files : FileTree) (cwd : Location) (start : Path) : Logged (Option Path) :=
  findAmong files cwd 0 start.ancestors

end SchemaCatalog.Config
