import SchemaCatalog.Config
import SchemaCatalog.Json.Reader
import SchemaCatalog.Json.Writer

/-!
# SchemaCatalog.Config.Json

Configurations as JSON.

Options that are absent are not written. Members of other names do not matter when a
configuration is read, but one of its own must not come twice.
-/

namespace SchemaCatalog.Config

/-- A member for an option that is there. -/
def optionMember {α : Type} (key : String) (value : α → Json) : Option α → List (String × Json)
  | none => []
  | some a => [(key, value a)]

def toJson (c : Config) : Json :=
  .record ([("projectId", .text c.projectId), ("dataset", .text c.dataset),
    ("graphqlApi", .text c.graphqlApi)] ++
    optionMember "token" .text c.token ++
    optionMember "apiHost" .text c.apiHost ++
    optionMember "typePrefix" .text c.typePrefix ++
    optionMember "timeout" (fun n : UInt64 => .nat n.toNat) c.timeout)

/-! ## Reading -/

def requiredText? : Json → Option String
  | .string text => text
  | _ => none

/-- A text that may be absent. -/
def optionalText? : Json → Option (Option String)
  | .null => some none
  | .string (some text) => some (some text)
  | _ => none

/-- A number of seconds: a whole number without sign, fraction or exponent, of 64 bits. -/
def seconds? : Json → Option (Option UInt64)
  | .null => some none
  | .number ⟨false, n, []⟩ => if n < UInt64.size then some (some (UInt64.ofNat n)) else none
  | _ => none

/-- The only member with a key, read by `read`, or the default when there is none. -/
def member? {α : Type} (members : List (Option String × Json)) (key : String)
    (default : Option α) (read : Json → Option α) : Option α :=
  match Json.membersNamed key members with
  | [] => default
  | [value] => read value
  | _ => none

/-- A configuration from the members of an object, whose keys have to denote texts. -/
def ofMembers? (members : List (Option String × Json)) : Option Config := do
  if members.any (·.1.isNone) then none
  else
    return {
      projectId := ← member? members "projectId" none requiredText?
      dataset := ← member? members "dataset" none requiredText?
      graphqlApi := ← member? members "graphqlApi" (some defaultApi) requiredText?
      token := ← member? members "token" (some none) optionalText?
      apiHost := ← member? members "apiHost" (some none) optionalText?
      typePrefix := ← member? members "typePrefix" (some none) optionalText?
      timeout := ← member? members "timeout" (some none) seconds? }

/-- A configuration as an object, or as an array of all seven settings. -/
def ofJson? : Json → Option Config
  | .object members => ofMembers? members
  | .array [projectId, dataset, graphqlApi, token, apiHost, typePrefix, timeout] => do
    return {
      projectId := ← requiredText? projectId
      dataset := ← requiredText? dataset
      graphqlApi := ← requiredText? graphqlApi
      token := ← optionalText? token
      apiHost := ← optionalText? apiHost
      typePrefix := ← optionalText? typePrefix
      timeout := ← seconds? timeout }
  | _ => none

/-- The configuration that a JSON text denotes. -/
def readJson? (text : String) : Option Config := (Json.read? text).bind ofJson?

end SchemaCatalog.Config
