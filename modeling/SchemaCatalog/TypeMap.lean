import SchemaCatalog.Json.Value
import SchemaCatalog.OrderedMap
import SchemaCatalog.TypeRef

/-!
# SchemaCatalog.TypeMap

What is known of the types of a schema: its objects with their fields, its unions and its
scalars, and example values.

The maps keep the order in which the types were found, so a type map has one written form.
-/

namespace SchemaCatalog

/-- A field of an object type. -/
structure FieldDef where
  type : TypeRef
  /-- The field whose value this one takes. -/
  aliasFor : Option String
  /-- Whether the field points at another document. -/
  isReference : Bool
deriving DecidableEq, Repr

namespace FieldDef

/-- The name of the field's type, without its wrappers. -/
def namedType (f : FieldDef) : String := f.type.namedType

def isList (f : FieldDef) : Bool := f.type.isList

end FieldDef

structure ObjectDef where
  name : String
  /-- Whether the type stands for documents. -/
  isDocument : Bool
  fields : OrderedMap FieldDef
deriving DecidableEq, Repr

namespace ObjectDef

def field? (o : ObjectDef) (name : String) : Option FieldDef := o.fields.get? name

/-- The fields that point at other documents, with their names. -/
def referenceFields (o : ObjectDef) : List (String × FieldDef) :=
  o.fields.entries.filter (·.2.isReference)

/-- The fields that take their value from another field, with their names. -/
def aliasedFields (o : ObjectDef) : List (String × FieldDef) :=
  o.fields.entries.filter (·.2.aliasFor.isSome)

end ObjectDef

structure UnionDef where
  name : String
  /-- The names of the members as they are written. -/
  types : List String
deriving DecidableEq, Repr

structure TypeMap where
  scalars : List String
  unions : OrderedMap UnionDef
  objects : OrderedMap ObjectDef
  exampleValues : OrderedMap Json
deriving Repr

namespace TypeMap

def object? (m : TypeMap) (name : String) : Option ObjectDef := m.objects.get? name

def union? (m : TypeMap) (name : String) : Option UnionDef := m.unions.get? name

def isScalar (m : TypeMap) (name : String) : Bool := m.scalars.contains name

/-- The objects that stand for documents, in order. -/
def documentTypes (m : TypeMap) : List ObjectDef := m.objects.values.filter (·.isDocument)

end TypeMap

end SchemaCatalog
