import SchemaCatalog.Config
import SchemaCatalog.Event
import SchemaCatalog.Sdl.Document
import SchemaCatalog.TypeMap

/-!
# SchemaCatalog.ExampleValues

Example values for the types of a schema.

They are supplied by a generator from outside and are welcome but not needed: when the generator
fails, there are none, and that is all.
-/

namespace SchemaCatalog

/-- Makes example values from a schema, the settings and the type map so far, or says why not.
It may emit events of its own, so a run of it shows. -/
abbrev ExampleGenerator :=
  Sdl.Document → Config → TypeMap → Logged (Except String (OrderedMap Json))

namespace ExampleGenerator

/-- No examples. -/
def none : ExampleGenerator := fun _ _ _ => pure (.ok .empty)

/-- The same examples for every schema. -/
def fixed (values : List (String × Json)) : ExampleGenerator := fun _ _ _ =>
  pure (.ok (.ofList values))

/-- A generator that fails. -/
def failing (message : String) : ExampleGenerator := fun _ _ _ => pure (.error message)

/-- What a generator is given, as examples. -/
def inspecting : ExampleGenerator := fun document config m =>
  pure <| .ok <| .ofList [
    ("definitions", .nat document.definitions.length),
    ("dataset", .text config.dataset),
    ("objects", .array (m.objects.keys.map .text)),
    ("unions", .array (m.unions.keys.map .text)),
    ("scalars", .array (m.scalars.map .text)),
    ("exampleValues", .nat m.exampleValues.size)]

end ExampleGenerator

/-- The examples of a generator, and none when it fails. -/
def exampleValues (generator : ExampleGenerator) (document : Sdl.Document) (config : Config)
    (m : TypeMap) (sdl : String) : Logged (OrderedMap Json) := do
  match ← generator document config m with
  | .ok values =>
    Logged.emit (.examplesGenerated values.size)
    return values
  | .error message =>
    Logged.emit (.examplesFailed message)
    Logged.emit (.examplesFailedOn sdl)
    return .empty

end SchemaCatalog
