/-!
# SchemaCatalog.Event

What the library has to say while it works.

Every diagnostic is a constructor that carries its data. Its level, its text and its fields as
they are shown are functions of the constructor, so a statement about which diagnostics arise
never has to look at texts.
-/

namespace SchemaCatalog

inductive Level where
  | debug
  | info
  | warn
  | error
deriving DecidableEq, Repr

def Level.label : Level → String
  | .debug => "DEBUG"
  | .info => "INFO"
  | .warn => "WARN"
  | .error => "ERROR"

inductive Event where
  /-- A schema text was refused with so many syntax errors. -/
  | syntaxErrors (count : Nat)
  /-- The alias argument of a field has a value that is no string. -/
  | aliasIgnored (field value : String)
  | objectRedefined (name : String)
  | unionRedefined (name : String)
  | objectAndUnion (name : String)
  | scalarCollision (name : String)
  | classified (objects unions scalars : Nat)
  | examplesGenerated (count : Nat)
  | examplesFailed (error : String)
  | examplesFailedOn (sdl : String)
  | configShadowed (path : String) (shadowed : String)
  | configFound (path : String) (depth : Nat)
  | configNotFound
  | configReading
  | configFormat (extension fileName : String)
  | configValid
  | configLoaded (dataset api : String)
  | configResolved (path dataset api : String)
  | schemaRequested (path : String)
  | responseReceived (status : Nat)
  | schemaFetched (length : Nat)
  | schemaMissing (status : Option Nat)
  | fetchFailed (status : Option Nat) (error : String)
deriving DecidableEq, Repr

namespace Event

def level : Event → Level
  | objectRedefined _ | unionRedefined _ | objectAndUnion _ | scalarCollision _
  | configShadowed _ _ | schemaMissing _ => .warn
  | configFound _ _ | configLoaded _ _ | schemaFetched _ => .info
  | fetchFailed _ _ => .error
  | syntaxErrors _ | aliasIgnored _ _ | classified _ _ _ | examplesGenerated _
  | examplesFailed _ | examplesFailedOn _ | configNotFound | configReading | configFormat _ _
  | configValid | configResolved _ _ _ | schemaRequested _ | responseReceived _ => .debug

def message : Event → String
  | syntaxErrors _ => "Schema SDL has syntax errors"
  | aliasIgnored _ _ => "Ignoring non-string @jsonAlias argument"
  | objectRedefined _ => "Object type defined more than once"
  | unionRedefined _ => "Union type defined more than once"
  | objectAndUnion _ => "Type is defined both as an object and a union"
  | scalarCollision _ => "Type name collides with a scalar"
  | classified _ _ _ => "Classified schema types"
  | examplesGenerated _ => "Generated example values"
  | examplesFailed _ => "Failed to generate example values"
  | examplesFailedOn _ => "Schema SDL the generator failed on"
  | configShadowed _ _ => "Multiple config files in one directory, using the preferred one"
  | configFound _ _ => "Found config file"
  | configNotFound => "No config file found"
  | configReading => "Reading config file"
  | configFormat _ _ => "Detecting config format"
  | configValid => "Config validation passed"
  | configLoaded _ _ => "Config loaded successfully"
  | configResolved _ _ _ => "Resolved config"
  | schemaRequested _ => "Requesting schema SDL"
  | responseReceived _ => "Received response"
  | schemaFetched _ => "Fetched remote schema"
  | schemaMissing _ => "Remote schema not found"
  | fetchFailed _ _ => "Failed to fetch remote schema"

/-- The status as it is shown: whether there was one, and which. -/
def showStatus : Option Nat → String
  | none => "None"
  | some status => "Some(" ++ toString status ++ ")"

def fields : Event → List (String × String)
  | syntaxErrors count => [("errors", toString count)]
  | aliasIgnored field value => [("field", field), ("value", value)]
  | objectRedefined name | unionRedefined name | objectAndUnion name | scalarCollision name =>
    [("name", name)]
  | classified objects unions scalars =>
    [("objects", toString objects), ("unions", toString unions), ("scalars", toString scalars)]
  | examplesGenerated count => [("count", toString count)]
  | examplesFailed error => [("error", error)]
  | examplesFailedOn sdl => [("sdl", sdl)]
  | configShadowed path shadowed => [("path", path), ("shadowed", shadowed)]
  | configFound path depth => [("path", path), ("depth", toString depth)]
  | configNotFound | configReading | configValid => []
  | configFormat extension fileName => [("extension", extension), ("file_name", fileName)]
  | configLoaded dataset api => [("dataset", dataset), ("graphql_api", api)]
  | configResolved path dataset api => [("path", path), ("dataset", dataset), ("api", api)]
  | schemaRequested path => [("path", path)]
  | responseReceived status => [("status", toString status)]
  | schemaFetched length => [("sdl_length", toString length)]
  | schemaMissing status => [("status", showStatus status)]
  | fetchFailed status error => [("status", showStatus status), ("error", error)]

end Event

/-! ## Computations that emit events -/

/-- A result together with the events emitted on the way to it, in order. -/
structure Logged (α : Type) where
  value : α
  events : List Event
deriving DecidableEq, Repr

namespace Logged

variable {α β : Type}

instance : Monad Logged where
  pure a := ⟨a, []⟩
  bind m f :=
    let next := f m.value
    ⟨next.value, m.events ++ next.events⟩

def emit (event : Event) : Logged Unit := ⟨(), [event]⟩

/-- Continue with a result that is there, and keep an error as it is. -/
def andThen {ε : Type} (m : Logged (Except ε α)) (f : α → Logged (Except ε β)) :
    Logged (Except ε β) :=
  match m with
  | ⟨.error e, events⟩ => ⟨.error e, events⟩
  | ⟨.ok a, events⟩ =>
    let next := f a
    ⟨next.value, events ++ next.events⟩

@[simp] theorem value_pure (a : α) : (pure a : Logged α).value = a := rfl

@[simp] theorem events_pure (a : α) : (pure a : Logged α).events = [] := rfl

@[simp] theorem value_bind (m : Logged α) (f : α → Logged β) :
    (m >>= f).value = (f m.value).value := rfl

@[simp] theorem events_bind (m : Logged α) (f : α → Logged β) :
    (m >>= f).events = m.events ++ (f m.value).events := rfl

end Logged

end SchemaCatalog
