/-!
# SchemaCatalog.Sdl.Document

Schema documents as trees.

The tree is tolerant: a part that a faulty text lacks is `none` or `missing`, so there is a tree
for every text. Of the definitions only object types, unions and scalars keep their contents;
the others are known by their kind.
-/

namespace SchemaCatalog.Sdl

/-- A type reference as it stands in a document. -/
inductive TypeNode where
  /-- Nothing stands where a type should. -/
  | missing
  | named (name : String)
  | list (item : TypeNode)
  | nonNull (inner : TypeNode)
deriving DecidableEq, Repr

inductive ValueKind where
  | variableName
  | string
  | float
  | int
  | boolean
  | null
  | enum
  | list
  | object
deriving DecidableEq, Repr

/-- A value with its exact source text. -/
structure Value where
  kind : ValueKind
  source : String
deriving DecidableEq, Repr

structure Argument where
  name : Option String
  value : Option Value
deriving DecidableEq, Repr

structure Directive where
  name : Option String
  arguments : List Argument
deriving DecidableEq, Repr

structure FieldDefinition where
  name : Option String
  type : TypeNode
  /-- The exact source text of the type. -/
  typeSource : String
  directives : List Directive
deriving DecidableEq, Repr

structure ObjectType where
  name : Option String
  interfaces : List String
  fields : List FieldDefinition
deriving DecidableEq, Repr

structure UnionType where
  name : Option String
  members : List String
deriving DecidableEq, Repr

structure ScalarType where
  name : Option String
deriving DecidableEq, Repr

/-- The kinds of definitions whose contents are not kept. -/
inductive OtherKind where
  | operation
  | fragment
  | directive
  | interface
  | enum
  | inputObject
  | schema
  | schemaExtension
  | scalarExtension
  | objectExtension
  | interfaceExtension
  | unionExtension
  | enumExtension
  | inputObjectExtension
deriving DecidableEq, Repr

inductive Definition where
  | object (type : ObjectType)
  | union (type : UnionType)
  | scalar (type : ScalarType)
  | other (kind : OtherKind)
deriving DecidableEq, Repr

/-- The top-level definitions of a schema text, in order. -/
structure Document where
  definitions : List Definition
deriving DecidableEq, Repr

def OtherKind.label : OtherKind → String
  | operation => "OperationDefinition"
  | fragment => "FragmentDefinition"
  | directive => "DirectiveDefinition"
  | interface => "InterfaceTypeDefinition"
  | enum => "EnumTypeDefinition"
  | inputObject => "InputObjectTypeDefinition"
  | schema => "SchemaDefinition"
  | schemaExtension => "SchemaExtension"
  | scalarExtension => "ScalarTypeExtension"
  | objectExtension => "ObjectTypeExtension"
  | interfaceExtension => "InterfaceTypeExtension"
  | unionExtension => "UnionTypeExtension"
  | enumExtension => "EnumTypeExtension"
  | inputObjectExtension => "InputObjectTypeExtension"

/-- The name of the grammar rule that a definition follows. -/
def Definition.label : Definition → String
  | object _ => "ObjectTypeDefinition"
  | union _ => "UnionTypeDefinition"
  | scalar _ => "ScalarTypeDefinition"
  | other kind => kind.label

def ValueKind.label : ValueKind → String
  | variableName => "Variable"
  | string => "String"
  | float => "Float"
  | int => "Int"
  | boolean => "Boolean"
  | null => "Null"
  | enum => "Enum"
  | list => "List"
  | object => "Object"

/-! ## The definitions by kind -/

namespace Document

def objects (d : Document) : List ObjectType :=
  d.definitions.filterMap fun
    | .object type => some type
    | _ => none

def unions (d : Document) : List UnionType :=
  d.definitions.filterMap fun
    | .union type => some type
    | _ => none

def scalars (d : Document) : List ScalarType :=
  d.definitions.filterMap fun
    | .scalar type => some type
    | _ => none

end Document

end SchemaCatalog.Sdl
