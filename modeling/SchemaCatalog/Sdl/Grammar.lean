import SchemaCatalog.Sdl.Cursor
import SchemaCatalog.Sdl.Document

/-!
# SchemaCatalog.Sdl.Grammar

The grammar of schema documents.

`parse` reads every text: it gives a tree together with all complaints, in the order in which
they arise, and a text is accepted when there are none. The grammar goes on behind a fault as
best it can, so the later complaints about a faulty text depend on exactly what each rule takes
and what it leaves.

Lists in types, lists and objects in values, and selections may nest to a fixed depth. Every
rule that nests is given the number of levels that are left, and what it reads one level down
as an argument, so that there is nothing to run out of but levels.
-/

namespace SchemaCatalog.Sdl

open Parse

/-- How deep a text may nest. -/
def maxDepth : Nat := 500

/-! ## Types -/

/-- What may follow every type: one exclamation mark. -/
def typeEnd (node : TypeNode) : Parse TypeNode := do
  skip
  if ← sees (.punctuator '!') then
    let _ ← pop
    skip
    return .nonNull node
  else
    skip
    return node

/-- A list type behind its opening bracket. -/
def listType (item : Parse (TypeNode × Option Token)) : Parse (TypeNode × Option Token) := do
  let (node, culprit) ← item
  blame "expected item type" culprit
  expect (.punctuator ']') "R_BRACK"
  return (← typeEnd (.list node), none)

/-- A type, whose items are read by `item?`, `none` when no level is left. The result also holds
the token that stood where a type should, which has been taken. -/
def typeLevel (item? : Option (Parse (TypeNode × Option Token))) :
    Parse (TypeNode × Option Token) := do
  match ← peek with
  | none => return (.missing, none)
  | some token =>
    match token.kind with
    | .punctuator '[' =>
      bump
      match item? with
      | none =>
        tooDeep
        return (.missing, none)
      | some item => listType item
    | .name =>
      let _ ← pop
      return (← typeEnd (.named token.text), none)
    | _ => return (.missing, ← pop)

def typeAt : Nat → Parse (TypeNode × Option Token)
  | 0 => typeLevel none
  | depth + 1 => typeLevel (some (typeAt depth))

def type : Parse TypeNode := do
  let (node, culprit) ← typeAt maxDepth
  blame "expected a type" culprit
  return node

/-! ## Values -/

/-- Names that are no enum values. -/
def reservedValues : List String := ["true", "false", "null"]

/-- An enum value. -/
def enumValue : Parse Unit := do
  if ← sees .name then
    whenever (seesAnyWord reservedValues) (complain "invalid Enum Value")
    let _ ← name "expected a Name"
  else
    complain "expected Enum Value"

/-- The items of a list and its closing bracket. -/
def listItems (item? : Option (Parse Unit)) : Nat → Parse Unit
  | 0 => return
  | n + 1 => do
    match ← peek with
    | none => return
    | some token =>
      if token.kind = .punctuator ']' then bump
      else if token.kind = .endOfInput then return
      else match item? with
        | none => tooDeep
        | some item =>
          item
          listItems item? n

/-- One field of an object value. -/
def objectField (item? : Option (Parse Unit)) : Parse Unit := do
  let _ ← name "expected a Name"
  if ← sees (.punctuator ':') then
    bump
    match item? with
    | none => tooDeep
    | some item => item

/-- A value, whose items are read by `item?`, `none` when no level is left. With `drops`, a token
that starts no value is taken with the complaint about it. -/
def valueLevel (item? : Option (Parse Unit)) (const drops : Bool) : Parse (Option ValueKind) := do
  let fault (message : String) : Parse Unit :=
    if drops then complainAndDrop message else complain message
  match ← peek with
  | none =>
    fault "expected a valid Value"
    return none
  | some token =>
    match token.kind with
    | .punctuator '$' =>
      whenever (pure const) (fault "unexpected variable value in a Const context")
      bump
      let _ ← name "expected a Name"
      return some .variableName
    | .int =>
      bump
      return some .int
    | .float =>
      bump
      return some .float
    | .string =>
      bump
      return some .string
    | .name =>
      if token.text = "true" ∨ token.text = "false" then
        bump
        return some .boolean
      else if token.text = "null" then
        bump
        return some .null
      else
        enumValue
        return some .enum
    | .punctuator '[' =>
      bump
      listItems item? (← bound)
      return some .list
    | .punctuator '\x7b' =>
      bump
      let _ ← many (sees .name) (objectField item?)
      expect (.punctuator '\x7d') "R_CURLY"
      return some .object
    | _ =>
      fault "expected a valid Value"
      return none

def valueAt : Nat → (const drops : Bool) → Parse (Option ValueKind)
  | 0, const, drops => valueLevel none const drops
  | depth + 1, const, drops =>
    valueLevel (some (discard (valueAt depth const true))) const drops

/-! ## Directives -/

def argument (depth : Nat) (const : Bool) : Parse Argument := do
  let argumentName ← name "expected a Name"
  if ← sees (.punctuator ':') then
    bump
    let (kind, source) ← withSource (valueAt depth const false)
    return ⟨argumentName, kind.map (⟨·, source⟩)⟩
  else
    return ⟨argumentName, none⟩

def arguments (depth : Nat) (const : Bool) : Parse (List Argument) := do
  bump
  demand (sees .name) "expected an Argument"
  let list ← many (sees .name) (argument depth const)
  expect (.punctuator ')') "R_PAREN"
  return list

def directive (depth : Nat) (const : Bool) : Parse Directive := do
  bump
  let directiveName ← name "expected a Name"
  if ← sees (.punctuator '(') then
    return ⟨directiveName, ← arguments depth const⟩
  else
    return ⟨directiveName, []⟩

def directives (depth : Nat) (const : Bool) : Parse (List Directive) :=
  many (sees (.punctuator '@')) (directive depth const)

def constDirectives : Parse (List Directive) := directives maxDepth true

/-! ## Lists with separators, input values and fields -/

/-- Items behind a separator each, the first of which may lack it. -/
def separated {α : Type} (separator : Char) (item : Parse α) : Parse (List α) := do
  whenever (sees (.punctuator separator)) bump
  let first ← item
  let others ← many (sees (.punctuator separator)) (do bump; item)
  return first :: others

/-- A description, if there is one. -/
def description : Parse Unit := whenever (sees .string) bump

/-- The start of a named or described item. -/
def itemStart : List Kind := [.name, .string]

/-- A block of items between brackets, the first of which has to be there. -/
def block {α : Type} (closing : Char) (label complaint : String) (item : Parse α) :
    Parse (List α) := do
  bump
  demand (seesAny itemStart) complaint
  let items ← many (seesAny itemStart) item
  expect (.punctuator closing) label
  return items

def typeStart : List Kind := [.name, .punctuator '[']

/-- A default value, if there is one. -/
def defaultValue : Parse Unit :=
  whenever (sees (.punctuator '=')) do
    bump
    let _ ← valueAt maxDepth true false

/-- The type of an input value or variable, with what follows it. -/
def inputType : Parse Unit := do
  if ← seesAny typeStart then
    let _ ← type
    defaultValue
    let _ ← constDirectives
  else
    complain "expected a Type"

def inputValue : Parse Unit := do
  description
  let _ ← name "expected a Name"
  if ← sees (.punctuator ':') then
    bump
    inputType
  else
    complain "expected a Name"

def argumentsDefinition : Parse Unit := do
  let _ ← block ')' "R_PAREN" "expected an Argument Definition" inputValue

def inputFields : Parse Unit := do
  let _ ← block '\x7d' "R_CURLY" "expected an Input Value Definition" inputValue

def fieldDefinition : Parse FieldDefinition := do
  description
  let fieldName ← name "expected a Name"
  whenever (sees (.punctuator '(')) argumentsDefinition
  if ← sees (.punctuator ':') then
    bump
    if ← seesAny typeStart then
      let (node, source) ← withSource type
      return ⟨fieldName, node, source, ← constDirectives⟩
    else
      complain "expected a Type"
      return ⟨fieldName, .missing, "", []⟩
  else
    complain "expected a type"
    return ⟨fieldName, .missing, "", []⟩

def fields : Parse (List FieldDefinition) :=
  block '\x7d' "R_CURLY" "expected Field Definition" fieldDefinition

def enumValueDefinition : Parse Unit := do
  description
  enumValue
  let _ ← constDirectives

def enumValues : Parse Unit := do
  let _ ← block '\x7d' "R_CURLY" "expected Enum Value Definition" enumValueDefinition

def implemented : Parse (List String) := do
  bump
  return (← separated '&' (name "expected an Interface name")).filterMap id

def members : Parse (List String) := do
  bump
  return (← separated '|' (name "expected Union Member Type")).filterMap id

/-! ## Type definitions -/

/-- The head of a definition: a description, a word and a name. -/
def definitionHead (word complaint : String) : Parse (Option String) := do
  description
  whenever (seesWord word) bump
  name complaint

/-- The interfaces, directives and fields of an object type or an interface. -/
def fieldsType (word complaint : String) : Parse ObjectType := do
  let typeName ← definitionHead word complaint
  let interfaces ← given (seesWord "implements") implemented (pure [])
  let _ ← constDirectives
  let fieldList ← given (sees (.punctuator '\x7b')) fields (pure [])
  return ⟨typeName, interfaces, fieldList⟩

def objectDefinition : Parse Definition := do
  return .object (← fieldsType "type" "expected a name")

def interfaceDefinition : Parse Definition := do
  let _ ← fieldsType "interface" "expected a Name"
  return .other .interface

def scalarDefinition : Parse Definition := do
  let typeName ← definitionHead "scalar" "expected a Name"
  let _ ← constDirectives
  return .scalar ⟨typeName⟩

def unionDefinition : Parse Definition := do
  let typeName ← definitionHead "union" "expected a Name"
  let _ ← constDirectives
  let memberList ← given (sees (.punctuator '=')) members (pure [])
  return .union ⟨typeName, memberList⟩

def enumDefinition : Parse Definition := do
  let _ ← definitionHead "enum" "expected a Name"
  let _ ← constDirectives
  whenever (sees (.punctuator '\x7b')) enumValues
  return .other .enum

def inputDefinition : Parse Definition := do
  let _ ← definitionHead "input" "expected a Name"
  let _ ← constDirectives
  whenever (sees (.punctuator '\x7b')) inputFields
  return .other .inputObject

/-- The words for the three kinds of operations. -/
def operationWords : List String := ["query", "mutation", "subscription"]

def operationType : Parse Unit := do
  match ← peek with
  | none => return
  | some token =>
    if operationWords.contains token.text then bump
    else complainAndDrop "expected either a 'mutation', a 'query', or a 'subscription'"

/-- A root operation of a schema; that its type is missing is no fault. -/
def rootOperation : Parse Unit := do
  operationType
  if ← sees (.punctuator ':') then
    bump
    whenever (sees .name) bump
  else
    complain "expected a Name Type"

/-- The root operations of a schema, and whether there are any. -/
def rootOperations : Parse Bool := do
  return !(← many (sees .name) rootOperation).isEmpty

def schemaDefinition : Parse Definition := do
  description
  whenever (seesWord "schema") bump
  let _ ← constDirectives
  whenever (sees (.punctuator '\x7b')) do
    bump
    demand rootOperations "expected Root Operation Type Definition"
    expect (.punctuator '\x7d') "R_CURLY"
  return .other .schema

/-- Where a directive may stand. -/
def directiveLocations : List String :=
  ["QUERY", "MUTATION", "SUBSCRIPTION", "FIELD", "FRAGMENT_DEFINITION", "FRAGMENT_SPREAD",
    "INLINE_FRAGMENT", "VARIABLE_DEFINITION", "SCHEMA", "SCALAR", "OBJECT", "FIELD_DEFINITION",
    "ARGUMENT_DEFINITION", "INTERFACE", "UNION", "ENUM", "ENUM_VALUE", "INPUT_OBJECT",
    "INPUT_FIELD_DEFINITION"]

def directiveLocation : Parse Unit := do
  if ← sees .name then
    if ← seesAnyWord directiveLocations then bump
    else complain "expected valid Directive Location"
  else
    complain "expected Directive Location"

def directiveDefinition : Parse Definition := do
  description
  whenever (seesWord "directive") bump
  given (sees (.punctuator '@')) bump (complain "expected @ symbol")
  let _ ← name "expected a Name"
  whenever (sees (.punctuator '(')) argumentsDefinition
  whenever (seesWord "repeatable") bump
  given (seesWord "on") bump (complain "expected Directive Locations")
  given (seesAny [.name, .punctuator '|']) (discard (separated '|' directiveLocation))
    (complain "expected valid Directive Location")
  return .other .directive

/-! ## Extensions -/

/-- What an extension may hold, and the complaint when it holds nothing. -/
structure ExtensionForm where
  kind : OtherKind
  named : Bool
  implements : Bool
  /-- The token that opens the body, and the rule for the body. -/
  body : Option (Char × Parse Unit)
  complaint : String

def extensionForm? : String → Option ExtensionForm
  | "type" => some ⟨.objectExtension, true, true, some ('\x7b', discard fields),
      "expected an Implements Interface, Directives or a Fields Definition"⟩
  | "interface" => some ⟨.interfaceExtension, true, true, some ('\x7b', discard fields),
      "exptected an Implements Interfaces, Directives, or a Fields Definition"⟩
  | "union" => some ⟨.unionExtension, true, false, some ('=', discard members),
      "expected Directives or Union Member Types"⟩
  | "enum" => some ⟨.enumExtension, true, false, some ('\x7b', enumValues),
      "expected Directive or Enum Values Definition"⟩
  | "input" => some ⟨.inputObjectExtension, true, false, some ('\x7b', inputFields),
      "expected Directives or an Input Fields Definition"⟩
  | "scalar" => some ⟨.scalarExtension, true, false, none, "expected Directives"⟩
  | "schema" => some ⟨.schemaExtension, false, false, none,
      "expected directives or Root Operation Type Definition"⟩
  | _ => none

/-- The root operations of a schema extension, and whether there are any. -/
def schemaExtensionBody : Parse Bool := do
  bump
  let found ← rootOperations
  expect (.punctuator '\x7d') "R_CURLY"
  return found

/-- The body of an extension that has one, and whether it is there. -/
def ExtensionForm.readBody (form : ExtensionForm) : Parse Bool :=
  match form.body with
  | none => return false
  | some (opener, body) =>
    given (sees (.punctuator opener)) (do body; return true) (return false)

/-- The root operations when it is a schema that is extended, and whether there are any. -/
def ExtensionForm.readRoots (form : ExtensionForm) : Parse Bool :=
  if form.kind = .schemaExtension then
    given (sees (.punctuator '\x7b')) schemaExtensionBody (return false)
  else
    return false

/-- The interfaces of an extension that may have some, and whether they are there. -/
def ExtensionForm.readInterfaces (form : ExtensionForm) : Parse Bool :=
  if form.implements then
    given (seesWord "implements") (do let _ ← implemented; return true) (return false)
  else
    return false

def extensionBody (form : ExtensionForm) : Parse Unit := do
  bump
  bump
  whenever (pure form.named) (discard (name "expected a Name"))
  let implementing ← form.readInterfaces
  let directed ← sees (.punctuator '@')
  let _ ← constDirectives
  let bodied ← form.readBody
  let rooted ← form.readRoots
  if !(implementing || directed || bodied || rooted) then
    complain form.complaint

def extension : Parse (Option Definition) := do
  match (← second).bind (extensionForm? ·.text) with
  | some form =>
    extensionBody form
    return some (.other form.kind)
  | none =>
    complainAndDrop "Invalid Type System Extension. This extension cannot be applied."
    return none

/-! ## Executable definitions -/

def fragmentName : Parse Unit := do
  if ← sees .name then
    if ← seesWord "on" then complain "Fragment Name cannot be 'on'" else bump
  else
    complain "expected Fragment Name"

def typeCondition : Parse Unit := do
  match ← peek with
  | none => return
  | some _ =>
    given (seesWord "on") bump (complain "expected 'on'")
    given (sees .name) bump (complain "expected a Name in Type Condition")

/-- The name that a field is given in the answer, if there is one, with its colon. -/
def answerName : Parse Unit := do
  match ← second with
  | some token =>
    whenever (pure (token.kind = .punctuator ':')) do
      let _ ← name "expected a Name"
      bump
  | none => return

/-- A field of a selection; `nested` reads its selection set. -/
def selectedField (depth : Nat) (nested : Parse Unit) : Parse Unit := do
  answerName
  let _ ← name "expected a Name"
  whenever (sees (.punctuator '(')) (discard (arguments depth false))
  let _ ← directives depth false
  whenever (sees (.punctuator '\x7b')) nested

/-- A spread or an inline fragment. -/
def selectedFragment (depth : Nat) (nested : Parse Unit) (next : Token) : Parse Unit := do
  if next.kind = .name ∧ next.text ≠ "on" then
    bump
    given (sees .name) fragmentName (complain "expected a Name")
    let _ ← directives depth false
  else if [Kind.punctuator '@', .name, .punctuator '\x7b'].contains next.kind then
    bump
    whenever (sees .name) typeCondition
    let _ ← directives depth false
    given (sees (.punctuator '\x7b')) nested (complain "expected Selection Set")
  else
    complain "expected an Inline Fragment or a Fragment Spread"
    bump

/-- The selections up to the first token that starts none, and whether there are any. -/
def selections (depth : Nat) (nested : Parse Unit) (found : Bool) : Nat → Parse Bool
  | 0 => return found
  | n + 1 => do
    if ← sees .name then
      selectedField depth nested
      selections depth nested true n
    else if ← sees .spread then
      match ← second with
      | none =>
        complainAndDrop "expected an Inline Fragment or a Fragment Spread"
        return found
      | some next =>
        selectedFragment depth nested next
        selections depth nested true n
    else
      return found

/-- A selection set at a depth that leaves so many levels. -/
def selectionSet : Nat → Parse Unit
  | 0 => do
    bump
    tooDeep
  | depth + 1 => do
    bump
    demand (do selections depth (selectionSet depth) false (← bound))
      "expected at least one Selection in Selection Set"
    expect (.punctuator '\x7d') "R_CURLY"

def variableDefinition : Parse Unit := do
  bump
  let _ ← name "expected a Name"
  if ← sees (.punctuator ':') then
    bump
    inputType
  else
    complain "expected a Name"

def variableDefinitions : Parse Unit := do
  bump
  demand (sees (.punctuator '$')) "expected a Variable Definition"
  let _ ← many (sees (.punctuator '$')) variableDefinition
  expect (.punctuator ')') "R_PAREN"

def operationDefinition : Parse Definition := do
  given (sees .name) (do
      operationType
      whenever (sees .name) (discard (name "expected a Name"))
      whenever (sees (.punctuator '(')) variableDefinitions
      let _ ← directives maxDepth false
      given (sees (.punctuator '\x7b')) (selectionSet maxDepth)
        (complainAndDrop "expected a Selection Set"))
    (given (sees (.punctuator '\x7b')) (selectionSet maxDepth)
      (complainAndDrop "expected an Operation Type or a Selection Set"))
  return .other .operation

def fragmentDefinition : Parse Definition := do
  bump
  fragmentName
  typeCondition
  let _ ← directives maxDepth false
  given (sees (.punctuator '\x7b')) (selectionSet maxDepth) (complain "expected a Selection Set")
  return .other .fragment

/-! ## Documents -/

/-- The definition that a word announces. -/
def definition (word : String) : Parse (Option Definition) :=
  match word with
  | "enum" => some <$> enumDefinition
  | "input" => some <$> inputDefinition
  | "interface" => some <$> interfaceDefinition
  | "type" => some <$> objectDefinition
  | "scalar" => some <$> scalarDefinition
  | "union" => some <$> unionDefinition
  | "schema" => some <$> schemaDefinition
  | "directive" => some <$> directiveDefinition
  | "extend" => extension
  | "fragment" => some <$> fragmentDefinition
  | "query" | "mutation" | "subscription" | "\x7b" => some <$> operationDefinition
  | _ => do
    complainAndDrop "expected definition"
    return none

/-- What stands at the top level: a definition, whose word may follow a description. -/
def topLevel : Parse (Option Definition) := do
  match ← peek with
  | none => return none
  | some token =>
    match token.kind with
    | .string =>
      match ← second with
      | some next => definition next.text
      | none =>
        complainAndDrop "expected a definition after this StringValue"
        return none
    | .name | .punctuator '\x7b' => definition token.text
    | _ =>
      complainAndDrop "expected a StringValue, Name or OperationDefinition"
      return none

/-- Whether there is anything left. -/
def hasMore : Parse Bool :=
  return (← peek).any (·.kind ≠ .endOfInput)

def document : Parse Document := do
  skip
  demand hasMore "Unexpected <EOF>."
  return ⟨(← many hasMore topLevel).filterMap id⟩

/-- The tree of a text and all complaints about it, in order. -/
def parse (text : String) : Document × List SyntaxError :=
  let (tree, cursor) := document.run (Cursor.start (Lexeme.scan text))
  (tree, cursor.errors.reverse)

end SchemaCatalog.Sdl
