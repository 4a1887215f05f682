/-!
# SchemaCatalog.CommandLine.ExitCode

How a run ends, told apart so that a script can react: a schema that was never deployed is not
the same as a broken remote or a malformed schema.
-/

namespace SchemaCatalog.CommandLine

inductive ExitCode where
  | success
  /-- A file cannot be read or written. -/
  | ioError
  /-- There is no usable configuration, or no usable command line. -/
  | configError
  /-- The schema is not deployed yet. -/
  | schemaWarning
  /-- The remote API fails. -/
  | remoteError
  /-- The schema breaks the grammar. -/
  | parseError
deriving DecidableEq, Repr

namespace ExitCode

def code : ExitCode → Nat
  | success => 0
  | ioError => 1
  | configError => 2
  | schemaWarning => 3
  | remoteError => 4
  | parseError => 5

def label : ExitCode → String
  | success => "success"
  | ioError => "I/O error"
  | configError => "configuration error"
  | schemaWarning => "schema not deployed"
  | remoteError => "remote error"
  | parseError => "parse error"

end ExitCode

/-- A run ends with a code of its own, or it panics because it cannot say something. -/
inductive Ending where
  | exit (code : ExitCode)
  | panic
deriving DecidableEq, Repr

namespace Ending

/-- A run ends well. -/
def success : Ending := exit .success

def code : Ending → Nat
  | exit code => code.code
  | panic => 101

end Ending

end SchemaCatalog.CommandLine
