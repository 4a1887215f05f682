import SchemaCatalog.Event
import SchemaCatalog.Sdl.Document
import SchemaCatalog.Sdl.StringLiteral

/-!
# SchemaCatalog.FieldDirectives

What the directives of a field say about it.

`@jsonAlias(for: "name")` takes the value of a field from another field, and `@reference` marks
a field that points at another document. Directives and arguments are found by their exact
name, and of several the first one counts.
-/

namespace SchemaCatalog

namespace Sdl

/-- The text that a value denotes, if it is a string. -/
def Value.text? (v : Value) : Option String :=
  if v.kind = .string then some (String.ofList (StringLiteral.value v.source.toList)) else none

def Directive.isNamed (name : String) (d : Directive) : Bool := d.name = some name

def Argument.isNamed (name : String) (a : Argument) : Bool := a.name = some name

/-- The first argument with a name. -/
def Directive.argument? (d : Directive) (name : String) : Option Argument :=
  d.arguments.find? (·.isNamed name)

/-- Where that argument stands. -/
def Directive.argumentIndex? (d : Directive) (name : String) : Option Nat :=
  d.arguments.findIdx? (·.isNamed name)

namespace FieldDefinition

/-- The first directive with a name. -/
def directive? (f : FieldDefinition) (name : String) : Option Directive :=
  f.directives.find? (·.isNamed name)

/-- Where that directive stands. -/
def directiveIndex? (f : FieldDefinition) (name : String) : Option Nat :=
  f.directives.findIdx? (·.isNamed name)

/-- The value that says which field this one takes its value from. -/
def aliasValue? (f : FieldDefinition) : Option Value := do
  let directive ← f.directive? "jsonAlias"
  let argument ← directive.argument? "for"
  argument.value

/-- The field that this one takes its value from. A value that is no string is passed over. -/
def aliasFor (f : FieldDefinition) : Logged (Option String) :=
  match f.aliasValue? with
  | none => pure none
  | some value =>
    match value.text? with
    | some text => pure (some text)
    | none => do
      Logged.emit (.aliasIgnored (f.name.getD "") value.source)
      return none

/-- Whether the field points at another document. -/
def isReference (f : FieldDefinition) : Bool := (f.directive? "reference").isSome

end FieldDefinition

end Sdl

end SchemaCatalog
