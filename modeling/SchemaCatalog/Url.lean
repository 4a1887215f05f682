import SchemaCatalog.Url.Host

/-!
# SchemaCatalog.Url

URLs, read the way browsers read them: tolerant of blanks around them, of backslashes and of
characters that have to be encoded, strict about hosts and ports.

Paths are kept as their segments, with dots resolved, so that a path can be compared segment by
segment.
-/

namespace SchemaCatalog

/-- The path of a URL. -/
inductive Url.Route where
  /-- Segments behind a slash each. -/
  | segments (list : List String)
  /-- A text that is no hierarchy. -/
  | opaqueText (text : String)
deriving DecidableEq, Repr

structure Url where
  scheme : String
  username : String
  password : String
  host : Option String
  /-- The port, unless it is the usual one of the scheme. -/
  port : Option Nat
  path : Url.Route
  query : Option String
  fragment : Option String
deriving DecidableEq, Repr

namespace Url

/-! ## Schemes -/

def isAlpha (c : Char) : Bool := ('a' ≤ c && c ≤ 'z') || ('A' ≤ c && c ≤ 'Z')

def isSchemeChar (c : Char) : Bool := isAlpha c || isDecimal c || ['+', '-', '.'].contains c

/-- The usual ports of the well-known schemes. -/
def specialSchemes : List (String × Option Nat) :=
  [("http", some 80), ("https", some 443), ("ws", some 80), ("wss", some 443), ("ftp", some 21),
    ("file", none)]

def isSpecial (scheme : String) : Bool := (specialSchemes.lookup scheme).isSome

/-- The port that a URL names, or else the usual one of its scheme. -/
def portOrUsual (u : Url) : Option Nat := u.port.or (specialSchemes.lookup u.scheme).join

/-- The text without the characters that do not count: blanks and controls at the ends, tabs and
line ends anywhere. -/
def cleaned (cs : List Char) : List Char :=
  let drop (c : Char) : Bool := c.toNat ≤ 0x20
  (((cs.dropWhile drop).reverse.dropWhile drop).reverse).filter fun c =>
    !(['\t', '\n', '\r'].contains c)

/-- The scheme in small letters, and what follows its colon. -/
def scheme? (cs : List Char) : Option (String × List Char) :=
  let name := cs.takeWhile isSchemeChar
  match name, cs.drop name.length with
  | first :: _, ':' :: rest =>
    if isAlpha first then some (String.ofList (name.map Text.LetterCase.asciiLower), rest)
    else none
  | _, _ => none

/-! ## Authorities -/

/-- The last occurrence of a character: what stands before and behind it. -/
def splitLast? (c : Char) (cs : List Char) : Option (List Char × List Char) :=
  let behind := cs.reverse.takeWhile (· ≠ c)
  match cs.reverse.drop behind.length with
  | _ :: before => some (before.reverse, behind.reverse)
  | [] => none

/-- A port of at most five digits worth; an empty one is the usual one. -/
def port? (scheme : String) (cs : List Char) : Option (Option Nat) :=
  if cs.isEmpty then some none
  else if !cs.all isDecimal then none
  else (digitsValue? 10 cs).bind fun n =>
    if 65535 < n then none
    else if specialSchemes.lookup scheme = some (some n) then some none
    else some (some n)

/-- The host and the port behind its colon; colons in brackets do not count. -/
def hostAndPort (cs : List Char) : List Char × List Char :=
  let start := match cs with
    | '[' :: _ => cs.takeWhile (· ≠ ']')
    | _ => []
  let rest := cs.drop start.length
  let host := start ++ rest.takeWhile (· ≠ ':')
  (host, (cs.drop host.length).drop 1)

/-- A user, a password, a host and a port. -/
structure Authority where
  username : String
  password : String
  host : String
  port : Option Nat
deriving DecidableEq, Repr

def authority? (scheme : String) (cs : List Char) : Option Authority := do
  let (user, rest, named) := match splitLast? '@' cs with
    | some (user, rest) => (user, rest, true)
    | none => ([], cs, false)
  let (hostText, portText) := hostAndPort rest
  if hostText.isEmpty && (named || !portText.isEmpty || isSpecial scheme) then none
  else
    let host ← if isSpecial scheme then host? hostText else opaqueHost? hostText
    let port ← port? scheme portText
    let name := user.takeWhile (· ≠ ':')
    let encoded (text : List Char) : String := String.ofList (percentEncode inUserInfo text)
    return ⟨encoded name, encoded ((user.drop name.length).drop 1), host, port⟩

/-! ## Paths -/

/-- A segment with its escaped points put plainly. -/
def plainDots : List Char → List Char
  | '%' :: '2' :: 'e' :: rest => '.' :: plainDots rest
  | '%' :: '2' :: 'E' :: rest => '.' :: plainDots rest
  | c :: rest => c :: plainDots rest
  | [] => []

def isSingleDot (segment : List Char) : Bool := plainDots segment = ['.']

def isDoubleDot (segment : List Char) : Bool := plainDots segment = ['.', '.']

/-- Append segments to those read before: a point stays where it is, two points go up, and either
leaves a slash at the end. -/
def resolveDots (before : List String) : List (List Char) → List String
  | [] => before
  | segment :: rest =>
    if isDoubleDot segment then
      resolveDots (if rest.isEmpty then before.dropLast ++ [""] else before.dropLast) rest
    else if isSingleDot segment then
      resolveDots (if rest.isEmpty then before ++ [""] else before) rest
    else resolveDots (before ++ [String.ofList (percentEncode inPath segment)]) rest

/-- The segments of a path behind its first slash. -/
def segmentsOf (scheme : String) (cs : List Char) : List (List Char) :=
  (if isSpecial scheme then cs.map fun c => if c = '\\' then '/' else c else cs).splitOn '/'

def isSlash (scheme : String) (c : Char) : Bool := c = '/' || (isSpecial scheme && c = '\\')

/-- A path that starts with a slash. With an empty path a well-known scheme has one slash, and
any other scheme nothing. -/
def hierarchy (scheme : String) (cs : List Char) : List String :=
  match cs with
  | [] => if isSpecial scheme then [""] else []
  | c :: rest =>
    resolveDots [] (segmentsOf scheme (if isSlash scheme c then rest else c :: rest))

/-- The path, the query and the fragment of a text. -/
def splitTail (cs : List Char) : List Char × Option (List Char) × Option (List Char) :=
  let beforeFragment := cs.takeWhile (· ≠ '#')
  let fragment := match cs.drop beforeFragment.length with
    | _ :: rest => some rest
    | [] => none
  let path := beforeFragment.takeWhile (· ≠ '?')
  let query := match beforeFragment.drop path.length with
    | _ :: rest => some rest
    | [] => none
  (path, query, fragment)

def encodedQuery (scheme : String) (query : List Char) : String :=
  String.ofList (percentEncode (inQuery (isSpecial scheme)) query)

def encodedFragment (fragment : List Char) : String :=
  String.ofList (percentEncode inFragment fragment)

/-! ## Reading and writing -/

/-- A URL from its scheme and the text behind the colon. -/
def ofScheme? (scheme : String) (rest : List Char) : Option Url :=
  let (body, query, fragment) := splitTail rest
  let query := query.map (encodedQuery scheme)
  let fragment := fragment.map encodedFragment
  let withAuthority (text : List Char) : Option Url :=
    let authorityText := text.takeWhile fun c => !isSlash scheme c
    (authority? scheme authorityText).map fun a =>
      ⟨scheme, a.username, a.password, some a.host, a.port,
        .segments (hierarchy scheme (text.drop authorityText.length)), query, fragment⟩
  if scheme = "file" then
    match body with
    | '/' :: '/' :: '/' :: path =>
      some ⟨scheme, "", "", none, none, .segments (hierarchy scheme ('/' :: path)), query, fragment⟩
    | '/' :: '/' :: text => withAuthority text
    | path => some ⟨scheme, "", "", none, none, .segments (hierarchy scheme path), query, fragment⟩
  else if isSpecial scheme then withAuthority (body.dropWhile (isSlash scheme))
  else
    match body with
    | '/' :: '/' :: text => withAuthority text
    | '/' :: path =>
      some ⟨scheme, "", "", none, none, .segments (hierarchy scheme ('/' :: path)), query, fragment⟩
    | text =>
      some ⟨scheme, "", "", none, none, .opaqueText (String.ofList (percentEncode isControl text)),
        query, fragment⟩

/-- The URL that a text denotes by itself. -/
def parse? (text : String) : Option Url :=
  (scheme? (cleaned text.toList)).bind fun (scheme, rest) => ofScheme? scheme rest

def Route.render : Route → String
  | .segments list => String.join (list.map ("/" ++ ·))
  | .opaqueText text => text

/-- The host with its port. -/
def authority (u : Url) : String :=
  u.host.getD "" ++ (match u.port with
    | some n => ":" ++ toString n
    | none => "")

/-- The user and the password before the host. -/
def credentials (u : Url) : String :=
  if u.username = "" ∧ u.password = "" then ""
  else if u.password = "" then u.username ++ "@"
  else u.username ++ ":" ++ u.password ++ "@"

/-- The path and the query, which is what a request asks for. -/
def target (u : Url) : String :=
  u.path.render ++ (match u.query with
    | some query => "?" ++ query
    | none => "")

def render (u : Url) : String :=
  u.scheme ++ ":" ++ (match u.host with
    | some _ => "//" ++ u.credentials ++ u.authority
    | none => if u.scheme = "file" then "//" else "") ++
    u.target ++ (match u.fragment with
    | some fragment => "#" ++ fragment
    | none => "")

/-! ## References -/

/-- The characters of a reference that needs no encoding. -/
def isReferenceChar (c : Char) : Bool :=
  isAlpha c || isDecimal c || "-._~:/?#[]@!$&'()*+,;=%".toList.contains c

/-- Whether every percent sign stands before two digits. -/
def escapesComplete : List Char → Bool
  | [] => true
  | '%' :: a :: b :: rest =>
    (Text.hexDigit? a).isSome && (Text.hexDigit? b).isSome && escapesComplete rest
  | '%' :: _ => false
  | _ :: rest => escapesComplete rest

/-- Whether a text is a well-formed reference to a URL. -/
def isReference (cs : List Char) : Bool := cs.all isReferenceChar && escapesComplete cs

/-- The URL that a reference means, seen from another URL. -/
def resolve? (u : Url) (reference : String) : Option Url :=
  let cs := reference.toList
  if !isReference cs then none
  else
    match scheme? cs with
    | some (scheme, rest) => ofScheme? scheme rest
    | none =>
      let (path, query, fragment) := splitTail cs
      let query := query.map (encodedQuery u.scheme)
      let fragment := fragment.map encodedFragment
      let before := match u.path with
        | .segments list => list
        | .opaqueText _ => []
      match path with
      | '/' :: '/' :: _ => ofScheme? u.scheme cs
      | '/' :: _ =>
        some { u with path := .segments (hierarchy u.scheme path), query, fragment }
      | [] => some { u with query := query.or u.query, fragment }
      | _ =>
        some { u with
          path := .segments (resolveDots before.dropLast (segmentsOf u.scheme path))
          query, fragment }

end Url

end SchemaCatalog
