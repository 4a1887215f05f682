import SchemaCatalog.Text.LetterCase

/-!
# SchemaCatalog.Naming

How the names of object and union types become the keys of a type map.
-/

namespace SchemaCatalog

/-- A way to name types. -/
abbrev Naming := String → String

namespace Naming

/-- Names as they are written. -/
def identity : Naming := fun raw => raw

/-- The name with a capital first letter, whose capital can take several characters. -/
def capitalized : List Char → List Char
  | [] => []
  | first :: rest => Text.LetterCase.upper first ++ rest

/-- Put a prefix before every name that does not start with it already. -/
def prefixed (start : String) : Naming := fun raw =>
  if start.toList.isPrefixOf raw.toList then raw
  else start ++ String.ofList (capitalized raw.toList)

/-- Names in capitals, as far as the letters from a to z go. -/
def upper : Naming := fun raw => String.ofList (raw.toList.map Text.LetterCase.asciiUpper)

/-- One name for all types. -/
def constant (name : String) : Naming := fun _ => name

end Naming

end SchemaCatalog
