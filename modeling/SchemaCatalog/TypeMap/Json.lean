import SchemaCatalog.Json.Writer
import SchemaCatalog.TypeMap

/-!
# SchemaCatalog.TypeMap.Json

Type maps as JSON.

Maps become objects with their keys in order, types their notation, and what follows from a
type, its name and whether it is a list, is written beside it.
-/

namespace SchemaCatalog

def FieldDef.toJson (f : FieldDef) : Json :=
  .record [("type", .text f.type.render), ("namedType", .text f.namedType),
    ("isList", .bool f.isList), ("aliasFor", .optionalText f.aliasFor),
    ("isReference", .bool f.isReference)]

/-- A map as an object with the keys in order. -/
def OrderedMap.toJson {α : Type} (value : α → Json) (m : OrderedMap α) : Json :=
  .record (m.entries.map fun entry => (entry.1, value entry.2))

def ObjectDef.toJson (o : ObjectDef) : Json :=
  .record [("name", .text o.name), ("kind", .text "Object"), ("isDocument", .bool o.isDocument),
    ("fields", o.fields.toJson FieldDef.toJson)]

def UnionDef.toJson (u : UnionDef) : Json :=
  .record [("name", .text u.name), ("kind", .text "Union"),
    ("types", .array (u.types.map .text))]

def TypeMap.toJson (m : TypeMap) : Json :=
  .record [("scalars", .array (m.scalars.map .text)), ("unions", m.unions.toJson UnionDef.toJson),
    ("objects", m.objects.toJson ObjectDef.toJson), ("exampleValues", m.exampleValues.toJson id)]

/-- The text of a type map. -/
def TypeMap.render (layout : Json.Layout) (m : TypeMap) : String := m.toJson.render layout

end SchemaCatalog
