import SchemaCatalog.CommandLine.ConfigChoice
import SchemaCatalog.CommandLine.ExitCode
import SchemaCatalog.CommandLine.Style
import SchemaCatalog.Remote.Failure
import SchemaCatalog.SchemaError

/-!
# SchemaCatalog.CommandLine.Failure

How a run fails: one cause for each step that can fail, with the code the run ends with and the
message it leaves. A message can fail as well, and then the run panics.
-/

namespace SchemaCatalog.CommandLine

inductive Failure where
  | config (cause : ConfigFailure)
  /-- The schema file cannot be read. -/
  | reading (path : Path) (cause : IoError)
  | remote (error : Remote.RemoteError)
  | schema (error : SchemaError)
  /-- The result cannot be written to its file. -/
  | writing (path : Path) (cause : IoError)
  /-- The result cannot be written to the standard output. -/
  | printing (cause : IoError)
deriving DecidableEq, Repr

namespace Failure

def exitCode : Failure → ExitCode
  | config _ => .configError
  | reading _ _ => .ioError
  | remote error => if error.recoverable then .schemaWarning else .remoteError
  | schema _ => .parseError
  | writing _ _ | printing _ => .ioError

/-- Whether the program tells of a failure itself. Of the last ones it is told when the program has
ended, and no more can fail then. -/
def isTold : Failure → Bool
  | config _ | reading _ _ | remote _ | schema _ => true
  | writing _ _ | printing _ => false

/-- The sign of an error. -/
def cross (colored : Bool) : String := Style.boldRed.paint colored "✗"

/-- The message about a result that cannot be written to a place. -/
def unwritten (place : String) (cause : IoError) : String :=
  "Error: Failed to write to " ++ place ++ "\n\nCaused by:\n    " ++ cause.message ++ "\n"

/-- The message of a failure. -/
def text (colored : Bool) : Failure → String
  | config cause => cross colored ++ " " ++ cause.message ++ "\n"
  | reading path cause =>
    cross colored ++ " Failed to read " ++ path.text ++ ": " ++ cause.message ++ "\n"
  | remote error =>
    if error.recoverable then
      Style.boldYellow.paint colored "⚠" ++ " " ++ Style.yellow.paint colored error.message ++ "\n"
    else
      cross colored ++ " " ++ Style.red.paint colored "Failed to fetch remote schema:" ++ " " ++
        error.message ++ "\n"
  | schema error => cross colored ++ " " ++ error.message ++ "\n"
  | writing path cause => unwritten path.text cause
  | printing cause => unwritten "stdout" cause

end Failure

/-- What a panic says about an output. The place in the program before it and the hint about traces
behind it are left out. -/
def panicText (cause : IoError) : String :=
  "failed printing to stdout: " ++ cause.message ++ "\n"

end SchemaCatalog.CommandLine
