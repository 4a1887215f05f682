import SchemaCatalog.Http.Status
import SchemaCatalog.Json.Reader
import SchemaCatalog.Text.LetterCase

/-!
# SchemaCatalog.Remote.Failure

Why a schema could not be fetched, and how bad that is.

A schema that was never deployed is expected in normal use. It shows in the status, or in the
message of the answer, however that is spelled in capitals and small letters. Everything else is
a failure for good.
-/

namespace SchemaCatalog.Remote

/-- What is known of a request that failed. -/
structure RequestFailure where
  /-- The status of the answer, if there was one. -/
  status : Option Nat
  /-- The message in the body of the answer. -/
  bodyMessage : Option String
  /-- The standard phrase for the status. -/
  statusMessage : Option String
  errorText : String
deriving DecidableEq, Repr

namespace RequestFailure

/-- No answer came. -/
def transport (errorText : String) : RequestFailure := ⟨none, none, none, errorText⟩

/-- A text that may be null. -/
def messageText? : Json → Option String
  | .string text => text
  | _ => none

/-- The message in a body: the only member of that name, or the only item of an array. -/
def messageOf? : Json → Option String
  | .object members =>
    if members.any (·.1.isNone) then none
    else
      match Json.membersNamed "message" members with
      | [value] => messageText? value
      | _ => none
  | .array [value] => messageText? value
  | _ => none

def ofResponse (status : Nat) (body : String) : RequestFailure where
  status := some status
  bodyMessage := (Json.read? body).bind messageOf?
  statusMessage := Http.reasonPhrase? status
  errorText := "Request failed with status code " ++ toString status

/-- The best message there is. -/
def message (f : RequestFailure) : String :=
  (f.bodyMessage.or f.statusMessage).getD f.errorText

/-- What a message says when there is no schema. -/
def missingPhrase : List Char := "schema not found".toList

def isSchemaMissing (f : RequestFailure) : Bool :=
  let said := Text.LetterCase.lowerText f.message.toList
  -- The decision procedure is named, for there are several.
  f.status = some 404 ||
    @decide (missingPhrase <:+: said) (List.instDecidableIsInfixOfDecidableEq missingPhrase said)

end RequestFailure

/-- The error of a fetch. -/
structure RemoteError where
  message : String
  /-- Whether the schema is only not there yet. -/
  recoverable : Bool
  status : Option Nat
deriving DecidableEq, Repr

/-- What to do about a missing schema. -/
def deployHint : String :=
  " - have you run \x60sanity graphql deploy\x60 yet?\n" ++
  "Schemas will be much cleaner, and you will have less problems with missing fields\n" ++
  "See https://github.com/sanity-io/gatsby-source-sanity#missing-fields for more info"

def RequestFailure.classify (f : RequestFailure) : RemoteError where
  message := f.message ++ (if f.isSchemaMissing then deployHint else "")
  recoverable := f.isSchemaMissing
  status := f.status

end SchemaCatalog.Remote
