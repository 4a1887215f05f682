/-!
# SchemaCatalog.Config

The settings of a run: which project and dataset to read the schema of, where, and how its types
are named.
-/

namespace SchemaCatalog

structure Config where
  /-- The project that the dataset belongs to. -/
  projectId : String
  dataset : String
  /-- The name of the deployed GraphQL API. -/
  graphqlApi : String
  /-- The token sent as a bearer credential. -/
  token : Option String
  /-- The base URL of the content API, instead of the one made from the project. -/
  apiHost : Option String
  /-- What the names of object and union types start with in the type map. -/
  typePrefix : Option String
  /-- The time limit of a request, in seconds. -/
  timeout : Option UInt64
deriving DecidableEq, Repr

namespace Config

/-- The GraphQL API of a configuration that names none. -/
def defaultApi : String := "default"

/-- The time limit in seconds of a configuration that sets none. -/
def defaultTimeout : UInt64 := 30

/-- A text without the slashes at its end. -/
def withoutTrailingSlashes (url : String) : String :=
  String.ofList (url.toList.reverse.dropWhile (· = '/')).reverse

/-- The base URL of the content API. -/
def apiUrl (c : Config) : String :=
  match c.apiHost with
  | some host => withoutTrailingSlashes host
  | none => "https://" ++ c.projectId ++ ".api.sanity.io/v1"

def timeoutSecs (c : Config) : UInt64 := c.timeout.getD defaultTimeout

end Config

end SchemaCatalog
