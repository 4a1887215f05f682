import SchemaCatalog.ExampleValues
import SchemaCatalog.FieldDirectives
import SchemaCatalog.Naming
import SchemaCatalog.SchemaError
import SchemaCatalog.Sdl.Grammar

/-!
# SchemaCatalog.Classification

From a schema text to its type map.

Object types, unions and scalars are kept, every other definition is passed over. Of several
definitions under one name the last one counts, in the place of the first. What may be a
mistake, a name defined twice or in two ways, is reported and never refused.
-/

namespace SchemaCatalog

/-- The scalars that every schema has. -/
def builtInScalars : List String := ["String", "Int", "Float", "Boolean", "ID"]

/-- The interface of the object types that stand for documents. -/
def documentInterface : String := "Document"

/-- The tree of a text that keeps the grammar. -/
def parseSchema (sdl : String) : Logged (Except SchemaError Sdl.Document) :=
  match Sdl.parse sdl with
  | (document, []) => pure (.ok document)
  | (_, errors) => do
    Logged.emit (.syntaxErrors errors.length)
    return .error (.syntaxErrors errors)

/-! ## Types of fields -/

/-- The type that a node denotes; `part` says what is incomplete when there is none. -/
def TypeRef.ofNode (part : String) : Sdl.TypeNode → Except SchemaError TypeRef
  | .missing => .error (.incomplete part)
  | .named name => .ok (.named name)
  | .list item => (TypeRef.ofNode "list type" item).map .list
  | .nonNull inner => (TypeRef.ofNode "non-null type" inner).map .nonNull

/-- A part of a definition that has to be there. -/
def require {α : Type} (part : String) : Option α → Logged (Except SchemaError α)
  | some a => pure (.ok a)
  | none => pure (.error (.incomplete part))

/-- A field with its name. -/
def classifyField (f : Sdl.FieldDefinition) : Logged (Except SchemaError (String × FieldDef)) :=
  (require "field name" f.name).andThen fun name =>
  Logged.andThen (pure (TypeRef.ofNode "field type" f.type)) fun type => do
    let aliasFor ← f.aliasFor
    return .ok (name, ⟨type, aliasFor, f.isReference⟩)

/-- The fields of an object, written to a map one after the other. -/
def classifyFields : List Sdl.FieldDefinition → OrderedMap FieldDef →
    Logged (Except SchemaError (OrderedMap FieldDef))
  | [], fields => pure (.ok fields)
  | f :: rest, fields =>
    (classifyField f).andThen fun (name, field) => classifyFields rest (fields.insert name field)

/-! ## Objects, unions and scalars -/

/-- Whether an object type stands for documents. -/
def isDocumentType (o : Sdl.ObjectType) : Bool := o.interfaces.contains documentInterface

def classifyObject (naming : Naming) (o : Sdl.ObjectType) :
    Logged (Except SchemaError ObjectDef) :=
  (require "object type name" o.name).andThen fun raw =>
  (classifyFields o.fields .empty).andThen fun fields =>
    pure (.ok ⟨naming raw, isDocumentType o, fields⟩)

/-- Say so when a name is taken already. -/
def warnIf (taken : Bool) (event : Event) : Logged Unit :=
  if taken then Logged.emit event else pure ()

/-- The object types, written to a map one after the other. -/
def classifyObjects (naming : Naming) : List Sdl.ObjectType → OrderedMap ObjectDef →
    Logged (Except SchemaError (OrderedMap ObjectDef))
  | [], objects => pure (.ok objects)
  | o :: rest, objects =>
    (classifyObject naming o).andThen fun object => do
      warnIf (objects.contains object.name) (.objectRedefined object.name)
      classifyObjects naming rest (objects.insert object.name object)

/-- The unions, written to a map one after the other; one without a name is passed over. -/
def classifyUnions (naming : Naming) : List Sdl.UnionType → OrderedMap UnionDef →
    Logged (OrderedMap UnionDef)
  | [], unions => pure unions
  | u :: rest, unions =>
    match u.name with
    | none => classifyUnions naming rest unions
    | some raw => do
      let union : UnionDef := ⟨naming raw, u.members⟩
      warnIf (unions.contains union.name) (.unionRedefined union.name)
      classifyUnions naming rest (unions.insert union.name union)

/-- The scalars that every schema has, and then those that are declared. -/
def classifyScalars (scalars : List Sdl.ScalarType) : List String :=
  builtInScalars ++ scalars.filterMap (·.name)

/-! ## The whole schema -/

/-- One event for every name that satisfies a test, in order. -/
def warnEach (test : String → Bool) (event : String → Event) : List String → Logged Unit
  | [] => pure ()
  | name :: rest => do
    warnIf (test name) (event name)
    warnEach test event rest

/-- Names of unions that are objects as well, and names that are also names of scalars. -/
def warnOnCollisions (m : TypeMap) : Logged Unit := do
  warnEach m.objects.contains .objectAndUnion m.unions.keys
  warnEach m.isScalar .scalarCollision (m.objects.keys ++ m.unions.keys)

/-- How type maps are made. -/
structure Classifier where
  naming : Naming
  examples : ExampleGenerator

/-- Names as they are written and no examples. -/
def Classifier.plain : Classifier := ⟨.identity, .none⟩

/-- The type map of a document, without examples. -/
def classifyDocument (naming : Naming) (d : Sdl.Document) : Logged (Except SchemaError TypeMap) :=
  (classifyObjects naming d.objects .empty).andThen fun objects => do
    let unions ← classifyUnions naming d.unions .empty
    let m : TypeMap := ⟨classifyScalars d.scalars, unions, objects, .empty⟩
    warnOnCollisions m
    Logged.emit (.classified m.objects.size m.unions.size m.scalars.length)
    return .ok m

/-- The type map of a schema text. -/
def Classifier.classify (c : Classifier) (sdl : String) (config : Config) :
    Logged (Except SchemaError TypeMap) :=
  (parseSchema sdl).andThen fun document =>
  (classifyDocument c.naming document).andThen fun m => do
    let values ← exampleValues c.examples document config m sdl
    return .ok { m with exampleValues := values }

/-- The type map of a schema text with names as they are written and no examples. -/
def typeMapOfSdl (sdl : String) (config : Config) : Logged (Except SchemaError TypeMap) :=
  Classifier.plain.classify sdl config

end SchemaCatalog
