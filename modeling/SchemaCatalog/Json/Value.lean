/-!
# SchemaCatalog.Json.Value

JSON values.

A value keeps what its text can tell apart and a reader may care about: the members of an object
in order with repeated keys, the digits of a number, and whether a string literal denotes a text
at all. A literal denotes none when an escape in it is half of a surrogate pair.
-/

namespace SchemaCatalog

/-- A number as it is written: its sign, its whole part, and the fraction and exponent. -/
structure Json.Numeral where
  negative : Bool
  whole : Nat
  tail : List Char
deriving DecidableEq, Repr

inductive Json where
  | null
  | bool (value : Bool)
  | number (numeral : Json.Numeral)
  /-- A string, `none` when the literal denotes no text. -/
  | string (text : Option String)
  | array (items : List Json)
  | object (members : List (Option String × Json))
deriving Repr, Inhabited

namespace Json

def text (s : String) : Json := .string (some s)

def nat (n : Nat) : Json := .number ⟨false, n, []⟩

def int (n : Int) : Json := .number ⟨n < 0, n.natAbs, []⟩

/-- A text or null. -/
def optionalText : Option String → Json
  | none => .null
  | some s => text s

/-- An object whose keys are texts. -/
def record (members : List (String × Json)) : Json :=
  .object (members.map fun member => (some member.1, member.2))

/-- The values of all members with a key, in order. -/
def membersNamed (key : String) (members : List (Option String × Json)) : List Json :=
  members.filterMap fun member => if member.1 = some key then some member.2 else none

theorem membersNamed_texts (key : String) (members : List (String × Json)) :
    membersNamed key (members.map fun member => (some member.1, member.2)) =
      (members.filter (·.1 = key)).map (·.2) := by
  rw [membersNamed, List.filterMap_map]
  induction members with
  | nil => rfl
  | cons member rest ih =>
    by_cases h : member.1 = key
    · simpa [h] using ih
    · simpa [h] using ih

end Json

end SchemaCatalog
