import SchemaCatalog.Sdl.Token

/-!
# SchemaCatalog.SchemaError

Why a schema text has no type map.
-/

namespace SchemaCatalog

/-- A complaint with its place. -/
def Sdl.SyntaxError.render (e : Sdl.SyntaxError) : String :=
  e.message ++ " (at offset " ++ toString e.offset ++ ")"

inductive SchemaError where
  /-- The text breaks the grammar. -/
  | syntaxErrors (errors : List Sdl.SyntaxError)
  /-- A part of a definition is missing. -/
  | incomplete (part : String)
deriving DecidableEq, Repr

namespace SchemaError

/-- The complaints about the grammar. -/
def complaints : SchemaError → List Sdl.SyntaxError
  | syntaxErrors errors => errors
  | incomplete _ => []

def message : SchemaError → String
  | syntaxErrors errors =>
    "Failed to parse schema SDL: " ++ "; ".intercalate (errors.map (·.render))
  | incomplete part => "Schema SDL contains an incomplete " ++ part

end SchemaError

end SchemaCatalog
