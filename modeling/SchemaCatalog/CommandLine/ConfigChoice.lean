import SchemaCatalog.CommandLine.Arguments
import SchemaCatalog.Config.Discovery

/-!
# SchemaCatalog.CommandLine.ConfigChoice

The configuration of a run.

It is the one in the file that the command line names, or else the nearest one. Values on the
command line replace those in the file, and what they make of it has to be valid again.
-/

namespace SchemaCatalog.CommandLine

/-- Where the configuration is and what replaces its values. -/
structure ConfigChoice where
  path : Option Path
  dataset : Option String
  api : Option String
deriving DecidableEq, Repr

/-- Why a run has no configuration. -/
inductive ConfigFailure where
  /-- There is no directory to start from. -/
  | noDirectory (cause : IoError)
  | notFound
  | loading (path : Path) (error : ConfigError)
  /-- The values on the command line break a rule. -/
  | overriding (error : ConfigError)
deriving DecidableEq, Repr

namespace ConfigFailure

/-- An error and what caused it. -/
def chain (error : ConfigError) : List String :=
  match error with
  | .io cause => [error.message, cause.message]
  | .invalid _ _ | .unsupportedFormat _ => [error.message]

def causes : ConfigFailure → List String
  | noDirectory cause => ["Failed to read current directory", cause.message]
  | notFound => ["No config file found. Use --config to specify one."]
  | loading path error => ("Failed to load config from " ++ path.text) :: chain error
  | overriding error => "Invalid command line override" :: chain error

def message (f : ConfigFailure) : String := ": ".intercalate f.causes

end ConfigFailure

namespace ConfigChoice

/-- Replace values of a configuration. -/
def override (choice : ConfigChoice) (c : Config) : Config :=
  { c with
    dataset := choice.dataset.getD c.dataset
    graphqlApi := choice.api.getD c.graphqlApi }

/-- Whether there is anything to replace. -/
def overrides (choice : ConfigChoice) : Bool := choice.dataset.isSome || choice.api.isSome

/-- The path of a location. -/
def pathOf (location : Location) : Path := ⟨"/" ++ "/".intercalate location⟩

/-- The file that holds the configuration: the one that is named, or else the nearest one of the
directory `start`. -/
def file (choice : ConfigChoice) (files : FileTree) (cwd : Location) (start : Path) :
    Logged (Option Path) :=
  match choice.path with
  | some path => pure (some path)
  | none => Config.find files cwd start

/-- The configuration in a file, with its values replaced. -/
def resolveAt (choice : ConfigChoice) (files : FileTree) (cwd : Location) (path : Path) :
    Logged (Except ConfigFailure Config) := do
  match ← Config.loadFile files cwd path with
  | .error error => return .error (.loading path error)
  | .ok loaded =>
    let c := choice.override loaded
    let checked ← if choice.overrides then c.validate path else pure (.ok ())
    match checked with
    | .error error => return .error (.overriding error)
    | .ok () => do
      Logged.emit (.configResolved path.text c.dataset c.graphqlApi)
      return .ok c

/-- The configuration that is found from the directory `start`. -/
def resolve (choice : ConfigChoice) (files : FileTree) (cwd : Location) (start : Path) :
    Logged (Except ConfigFailure Config) := do
  match ← choice.file files cwd start with
  | none => return .error .notFound
  | some path => choice.resolveAt files cwd path

end ConfigChoice

/-- The part of a command line that is about the configuration. -/
def Arguments.configChoice (a : Arguments) : ConfigChoice := ⟨a.config, a.dataset, a.api⟩

end SchemaCatalog.CommandLine
