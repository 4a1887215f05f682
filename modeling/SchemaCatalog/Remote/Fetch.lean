import SchemaCatalog.Event
import SchemaCatalog.Remote.Client
import SchemaCatalog.Remote.Failure

/-!
# SchemaCatalog.Remote.Fetch

The schema text that is deployed for a configuration.
-/

namespace SchemaCatalog.Remote

open Http (Exchanged Fault Server)

/-- The kind of contents that schema texts have. -/
def mediaType : String := "application/graphql"

/-- Where the schema of a dataset is, below the base URL. -/
def schemaPath (dataset api : String) : String := "/apis/graphql/" ++ dataset ++ "/" ++ api

/-- The schema text in an answer, or what is wrong with the answer. -/
def schemaIn (response : Http.Response) (url : Url) : Except RequestFailure String :=
  if Http.isSuccess response.status then
    match response.text? with
    | some text => .ok text
    | none => .error (.transport (Fault.decoding url).message)
  else .error (.ofResponse response.status (response.text?.getD ""))

/-- Ask a server for the schema at a path. -/
def askSchema (server : Server) (client : Client) (path : String) :
    Logged (Exchanged (Except RequestFailure String)) := do
  Logged.emit (.schemaRequested path)
  match client.request path mediaType with
  | .error fault => return ⟨.error (.transport fault.message), []⟩
  | .ok request =>
    let exchanged := Http.send server Http.maxHops [] request
    match exchanged.result with
    | .error fault => return ⟨.error (.transport fault.message), exchanged.requests⟩
    | .ok (response, url) => do
      Logged.emit (.responseReceived response.status)
      return ⟨schemaIn response url, exchanged.requests⟩

/-- Ask for the schema at a path, with an HTTP client if one can be made. -/
def requestSchema (carrier : Except String Server) (client : Client) (path : String) :
    Logged (Exchanged (Except RequestFailure String)) :=
  match carrier with
  | .error cause => pure ⟨.error (.transport ("Failed to create HTTP client: " ++ cause)), []⟩
  | .ok server => askSchema server client path

/-- Report how a fetch ends. -/
def report : Except RequestFailure String → Logged (Except RemoteError String)
  | .ok text => do
    Logged.emit (.schemaFetched text.utf8ByteSize)
    return .ok text
  | .error failure => do
    let error := failure.classify
    if error.recoverable then Logged.emit (.schemaMissing failure.status)
    else Logged.emit (.fetchFailed failure.status error.message)
    return .error error

/-- Fetch the schema that a configuration names, with an HTTP client if one can be made. -/
def fetchSchemaBy (carrier : Except String Server) (client : Client) (config : Config) :
    Logged (Exchanged (Except RemoteError String)) := do
  let exchanged ← requestSchema carrier client (schemaPath client.dataset config.graphqlApi)
  return ⟨← report exchanged.result, exchanged.requests⟩

/-- Fetch the schema that a configuration names from a server. -/
def fetchSchema (server : Server) (client : Client) (config : Config) :
    Logged (Exchanged (Except RemoteError String)) :=
  fetchSchemaBy (.ok server) client config

end SchemaCatalog.Remote
