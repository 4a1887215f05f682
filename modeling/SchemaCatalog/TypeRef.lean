/-!
# SchemaCatalog.TypeRef

References to types as a schema writes them: a name, wrapped in any number of list (`[T]`) and
non-null (`T!`) layers.

The wrapping is kept as it is, so a reference can be written again. Two questions see through
it: which name is underneath, and is there a list on the way to it.
-/

namespace SchemaCatalog

/-- A named type under list and non-null wrappers. -/
inductive TypeRef where
  | named (name : String)
  | list (item : TypeRef)
  | nonNull (inner : TypeRef)
deriving DecidableEq, Repr

namespace TypeRef

/-- The name under all wrappers. -/
def namedType : TypeRef → String
  | named name => name
  | list item => item.namedType
  | nonNull inner => inner.namedType

/-- A list wrapper makes the type a list whatever it wraps; a non-null wrapper asks its inside. -/
def isList : TypeRef → Bool
  | named _ => false
  | list _ => true
  | nonNull inner => inner.isList

/-- Whether the outermost wrapper is non-null. -/
def isNonNull : TypeRef → Bool
  | nonNull _ => true
  | _ => false

/-- The notation of the schema language, character by character. -/
def chars : TypeRef → List Char
  | named name => name.toList
  | list item => '[' :: (item.chars ++ [']'])
  | nonNull inner => inner.chars ++ ['!']

/-- The notation of the schema language. -/
def render (t : TypeRef) : String := String.ofList t.chars

/-- Whether some wrapper at any depth is a list. -/
def hasList : TypeRef → Bool
  | named _ => false
  | list _ => true
  | nonNull inner => inner.hasList

/-- The number of list wrappers, which is how deep the notation nests. -/
def listDepth : TypeRef → Nat
  | named _ => 0
  | list item => item.listDepth + 1
  | nonNull inner => inner.listDepth

end TypeRef

end SchemaCatalog
