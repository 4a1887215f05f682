import SchemaCatalog.Http.Status
import SchemaCatalog.Text.Blank
import SchemaCatalog.Text.LetterCase
import SchemaCatalog.Text.Utf8
import SchemaCatalog.Url

/-!
# SchemaCatalog.Http.Exchange

Requests, answers, and what a client does between sending the one and having the other.

A server is a function from the requests so far to an answer, or to none when the connection
ends without one. An answer that names another place is followed there, ten times at most.
-/

namespace SchemaCatalog.Http

/-! ## Header fields -/

/-- The characters of field names. -/
def isNameChar (c : Char) : Bool :=
  ('a' ≤ c && c ≤ 'z') || ('A' ≤ c && c ≤ 'Z') || ('0' ≤ c && c ≤ '9') ||
    "!#$%&'*+-.^_|~\x60".toList.contains c

def isFieldName (name : String) : Bool := name ≠ "" && name.toList.all isNameChar

/-- Field values hold no control characters except tabs. -/
def isFieldValue (value : String) : Bool :=
  value.toList.all fun c => c = '\t' || (0x20 ≤ c.toNat && c.toNat ≠ 0x7F)

/-- Names of header fields are the same in small letters and in capitals. -/
def fieldKey (name : String) : String :=
  String.ofList (name.toList.map Text.LetterCase.asciiLower)

/-- The blanks around a field value are not part of it. -/
def fieldText (value : String) : String :=
  String.ofList (Text.trimBy (fun c => c = ' ' || c = '\t') value.toList)

/-! ## Requests and answers -/

/-- A request for the contents at a URL. -/
structure Request where
  url : Url
  /-- Names in small letters and values, in the order in which they are sent. -/
  headers : List (String × String)
deriving DecidableEq, Repr

structure Response where
  status : Nat
  headers : List (String × String)
  body : ByteArray
  /-- Whether the connection has lasted until the end of the body. -/
  complete : Bool

/-- The values of a field, in order. -/
def valuesOf (headers : List (String × String)) (name : String) : List String :=
  headers.filterMap fun header => if fieldKey header.1 = name then some header.2 else none

/-- The text of the body, `none` when its end is missing. -/
def Response.text? (r : Response) : Option String :=
  if isBodiless r.status then some ""
  else if r.complete then some (Text.Utf8.decode r.body)
  else none

/-- What answers a request, given the requests before it. -/
abbrev Server := (earlier : List Request) → Request → Option Response

/-- Why there is no answer to a request. -/
inductive Fault where
  /-- The request cannot be made. -/
  | builder (url : Option Url)
  /-- No answer comes. -/
  | sending (url : Url)
  /-- The body of the answer breaks off. -/
  | decoding (url : Url)
  /-- There are too many places to go. -/
  | redirecting (url : Url)
deriving DecidableEq, Repr

def Fault.message : Fault → String
  | builder none => "builder error"
  | builder (some url) => "builder error for url (" ++ url.render ++ ")"
  | sending url => "error sending request for url (" ++ url.render ++ ")"
  | decoding url => "error decoding response body for url (" ++ url.render ++ ")"
  | redirecting url => "error following redirect for url (" ++ url.render ++ ")"

/-- A result with the requests that were sent for it. -/
structure Exchanged (α : Type) where
  result : α
  requests : List Request

/-- Whether a host can stand in a request. URLs know some more characters in hosts. -/
def isHost (host : String) : Bool :=
  host.toList.all fun c => c ∉ ['"', '\x60', '\x7b', '\x7d']

/-- Whether requests can be sent to a URL: by its scheme, and to its host. -/
def isSendable (url : Url) : Bool :=
  (url.scheme = "http" || url.scheme = "https") && url.host.all isHost

/-! ## Redirections -/

/-- Where an answer sends the request. -/
def redirection? (url : Url) (r : Response) : Option Url :=
  if isRedirect r.status then
    (valuesOf r.headers "location").head?.bind fun reference =>
      (url.resolve? (fieldText reference)).bind fun next =>
        if next.host.isSome then some next else none
  else none

/-- The fields that are for one host only. -/
def privateFields : List String :=
  ["authorization", "cookie", "cookie2", "proxy-authorization", "www-authenticate"]

/-- Whether two URLs are on the same host and port, where a scheme has its usual port. -/
def isSameHost (a b : Url) : Bool := a.host = b.host && a.portOrUsual = b.portOrUsual

/-- A request that goes elsewhere. On another host it has no fields that are for one host only. -/
def Request.redirect (request : Request) (next : Url) : Request where
  url := next
  headers :=
    if isSameHost request.url next then request.headers
    else request.headers.filter fun field => !privateFields.contains field.1

/-- Send a request and follow redirections, so many at most; the answer comes with the URL that
gave it. -/
def send (server : Server) : (hops : Nat) → (earlier : List Request) → Request →
    Exchanged (Except Fault (Response × Url))
  | hops, earlier, request =>
    let sent := earlier ++ [request]
    match server earlier request with
    | none => ⟨.error (.sending request.url), sent⟩
    | some response =>
      if isInterim response.status then ⟨.error (.sending request.url), sent⟩
      else
        match redirection? request.url response with
        | none => ⟨.ok (response, request.url), sent⟩
        | some next =>
          match hops with
          | 0 => ⟨.error (.redirecting request.url), sent⟩
          | hops + 1 =>
            if isSendable next then send server hops sent (request.redirect next)
            else ⟨.error (.builder (some next)), sent⟩

/-- How often a request may be sent elsewhere. -/
def maxHops : Nat := 10

end SchemaCatalog.Http
