import SchemaCatalog.Config
import SchemaCatalog.Http.Exchange
import SchemaCatalog.OrderedMap
import SchemaCatalog.Text.Base64

/-!
# SchemaCatalog.Remote.Client

A client for the content API: where the API is, who asks, and how long to wait.
-/

namespace SchemaCatalog.Remote

structure Client where
  /-- The base URL, without slashes at its end. -/
  baseUrl : String
  dataset : String
  token : Option String
  /-- Further header fields by name. -/
  headers : OrderedMap String
  /-- The time limits of a request and of a connection, in whole seconds. Parts of a second, which
  no configuration has, are left out. -/
  timeout : Nat
  connectTimeout : Nat
deriving DecidableEq, Repr

namespace Client

def new (baseUrl dataset : String) : Client where
  baseUrl := Config.withoutTrailingSlashes baseUrl
  dataset := dataset
  token := none
  headers := .empty
  timeout := 30
  connectTimeout := 10

def withToken (c : Client) (token : String) : Client := { c with token := some token }

/-- Send a header field. A field under the same name is replaced. -/
def withHeader (c : Client) (name value : String) : Client :=
  { c with headers := c.headers.insert name value }

def withTimeout (c : Client) (seconds : Nat) : Client := { c with timeout := seconds }

def withConnectTimeout (c : Client) (seconds : Nat) : Client :=
  { c with connectTimeout := seconds }

def ofConfig (config : Config) : Client :=
  let client := (new config.apiUrl config.dataset).withTimeout config.timeoutSecs.toNat
  match config.token with
  | some token => client.withToken token
  | none => client

/-! ## Requests -/

/-- The text that a part of a URL stands for, if its escapes are a text. -/
def plain? (part : String) : Option String :=
  String.fromUTF8? ⟨(Url.percentDecode part.toList).toArray⟩

/-- The user and the password that a URL names. A password that is no text is none, and a user that
is no text is left where it is. -/
def user? (url : Url) : Option (String × String) :=
  if url.username = "" ∧ (url.password = "" ∨ plain? url.password = none) then none
  else (plain? url.username).map fun user => (user, (plain? url.password).getD "")

/-- The field that names the user of a URL. -/
def userField (url : Url) : List (String × String) :=
  match user? url with
  | none => []
  | some (user, password) =>
    let credentials := (user ++ ":" ++ password).toUTF8.toList
    [("authorization", "Basic " ++ String.ofList (Text.Base64.encode credentials))]

/-- The URL without the user that goes into the header. -/
def place (url : Url) : Url :=
  if (user? url).isSome then { url with username := "", password := "" } else url

/-- All header fields: the user, the token, the client's own fields, and the kind of contents that
is wanted. -/
def fields (c : Client) (url : Url) (accept : String) : List (String × String) :=
  userField url ++
    (c.token.map fun token => ("authorization", "Bearer " ++ token)).toList ++
    c.headers.entries ++ [("accept", accept)]

/-- The request for a path below the base URL, if it can be made. -/
def request (c : Client) (path accept : String) : Except Http.Fault Http.Request :=
  match Url.parse? (c.baseUrl ++ path) with
  | none => .error (.builder none)
  | some full =>
    if full.host.isNone then .error (.builder (some full))
    else
      let url := place full
      let fields := c.fields full accept
      if !fields.all fun field => Http.isFieldName field.1 && Http.isFieldValue field.2 then
        .error (.builder none)
      else if !Http.isSendable url then .error (.builder (some url))
      else .ok ⟨url, fields.map fun field => (Http.fieldKey field.1, field.2)⟩

end Client

end SchemaCatalog.Remote
