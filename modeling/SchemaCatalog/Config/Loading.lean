import SchemaCatalog.Config.Json
import SchemaCatalog.Config.Validation
import SchemaCatalog.Config.Yaml
import SchemaCatalog.Event

/-!
# SchemaCatalog.Config.Loading

Configurations from files.

The name of a file says how it is written. One name without an extension leaves it open: such a
file is read as YAML, and as JSON when it is no YAML configuration. What is read has to be valid.
-/

namespace SchemaCatalog.Config

/-- How a configuration file is written. -/
inductive Format where
  | yaml
  | json
  /-- YAML, or else JSON. -/
  | either
deriving DecidableEq, Repr

/-- The file name that leaves the format open. -/
def plainFileName : String := ".typemaprc"

/-- The format that an extension and a file name announce. -/
def Format.of? (extension fileName : String) : Option Format :=
  if extension = "yml" ∨ extension = "yaml" then some .yaml
  else if extension = "json" then some .json
  else if extension = "" ∧ fileName = plainFileName then some .either
  else none

/-- The configuration that a text denotes in a format. -/
def Format.read (format : Format) (text : String) : Except ConfigFault Config :=
  let json : Except ConfigFault Config := match readJson? text with
    | some c => .ok c
    | none => .error .json
  match format with
  | .json => json
  | .yaml => match readYaml? text with
    | some c => .ok c
    | none => .error .yaml
  | .either => match readYaml? text with
    | some c => .ok c
    | none => json

/-- Check a configuration that belongs to a path. -/
def validate (c : Config) (path : Path) : Logged (Except ConfigError Unit) :=
  match c.fault? with
  | some fault => pure (.error (.invalid path fault))
  | none => do
    Logged.emit .configValid
    return .ok ()

/-- The valid configuration that the contents of a file denote. -/
def load (contents : String) (path : Path) : Logged (Except ConfigError Config) := do
  let extension := path.extension?.getD ""
  let fileName := path.fileName?.getD ""
  Logged.emit (.configFormat extension fileName)
  match Format.of? extension fileName with
  | none => return .error (.unsupportedFormat path)
  | some format =>
    match format.read contents with
    | .error fault => return .error (.invalid path fault)
    | .ok c => (c.validate path).andThen fun _ => pure (.ok c)

/-- The valid configuration in a file. -/
def loadFile (files : FileTree) (cwd : Location) (path : Path) :
    Logged (Except ConfigError Config) := do
  Logged.emit .configReading
  match files.readText cwd path with
  | .error cause => return .error (.io cause)
  | .ok contents =>
    (load contents path).andThen fun c => do
      Logged.emit (.configLoaded c.dataset c.graphqlApi)
      return .ok c

end SchemaCatalog.Config
