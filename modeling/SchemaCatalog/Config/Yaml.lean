import SchemaCatalog.Config
import SchemaCatalog.Text.Base64
import SchemaCatalog.Text.Blank
import SchemaCatalog.Text.Hex
import SchemaCatalog.Yaml.Node.Reader

/-!
# SchemaCatalog.Config.Yaml

Configurations as YAML.

The document is a mapping. A text is the text of any scalar that does not say otherwise by its
tag; a scalar that means nothing is no text where one is required, and an absent option where
one may be missing.
-/

namespace SchemaCatalog.Config

open Yaml (Node Style)

/-- The tags of values that are no texts. -/
def nonTextTags : List String :=
  ["int", "float", "bool", "null", "seq", "map"].map (Yaml.Reader.coreTags ++ ·)

/-- The text of a scalar, given its tag. -/
def scalarText? (tag : Option String) (style : Style) (text : String) : Option String :=
  if tag = some (Yaml.Reader.coreTags ++ "str") then some text
  else if Node.isNull style text then none
  else if tag = some (Yaml.Reader.coreTags ++ "binary") then Text.Base64.decode? text
  else if tag.any nonTextTags.contains then none
  else some text

/-- The text of a node that has to be one. -/
def nodeText? : Node → Option String
  | .scalar tag style text => scalarText? tag style text
  | _ => none

/-- Whether a node stands for an absent option. -/
def isAbsent : Node → Bool
  | .scalar tag style text =>
    tag = some (Yaml.Reader.coreTags ++ "null") || Node.isNull style text ||
      (style ≠ .quoted && text = "")
  | _ => false

/-- An option that is read by `read` unless it is absent. -/
def option? {α : Type} (read : Node → Option α) (node : Node) : Option (Option α) :=
  if isAbsent node then some none else (read node).map some

/-! ## Whole numbers -/

/-- The digit of a base. -/
def digit? (base : Nat) (c : Char) : Option Nat :=
  (Text.hexDigit? c).bind fun d => if d < base then some d else none

/-- The number that digits denote; underscores between them do not count. -/
def natOfDigits? (base : Nat) (cs : List Char) : Option Nat :=
  match cs.filter (· ≠ '_') with
  | [] => none
  | digits => (digits.mapM (digit? base)).map fun values =>
    values.foldl (fun n d => n * base + d) 0

/-- A number in decimal digits, or in others behind a prefix that says so. -/
def natOfChars? : List Char → Option Nat
  | '0' :: 'x' :: rest | '0' :: 'X' :: rest => natOfDigits? 16 rest
  | '0' :: 'o' :: rest | '0' :: 'O' :: rest => natOfDigits? 8 rest
  | '0' :: 'b' :: rest | '0' :: 'B' :: rest => natOfDigits? 2 rest
  | cs => natOfDigits? 10 cs

/-- A whole number of 64 bits, which may have a plus sign. -/
def wholeNumber? (text : String) : Option UInt64 :=
  let digits := match Text.trim text.toList with
    | '+' :: rest => rest
    | cs => cs
  (natOfChars? digits).bind fun n => if n < UInt64.size then some (UInt64.ofNat n) else none

def nodeNumber? : Node → Option UInt64
  | .scalar _ _ text => wholeNumber? text
  | _ => none

/-! ## Settings -/

/-- The only entry with a key, read by `read`, or the default when there is none. -/
def entry? {α : Type} (entries : List (String × Node)) (key : String) (default : Option α)
    (read : Node → Option α) : Option α :=
  match entries.filter (·.1 = key) with
  | [] => default
  | [(_, node)] => read node
  | _ => none

def ofEntries? (entries : List (String × Node)) : Option Config := do
  return {
    projectId := ← entry? entries "projectId" none nodeText?
    dataset := ← entry? entries "dataset" none nodeText?
    graphqlApi := ← entry? entries "graphqlApi" (some defaultApi) nodeText?
    token := ← entry? entries "token" (some none) (option? nodeText?)
    apiHost := ← entry? entries "apiHost" (some none) (option? nodeText?)
    typePrefix := ← entry? entries "typePrefix" (some none) (option? nodeText?)
    timeout := ← entry? entries "timeout" (some none) (option? nodeNumber?) }

/-- A configuration from the root of a document. -/
def ofNode? : Node → Option Config
  | .mapping tag pairs => do
    if !(Node.mapping tag pairs).isValid then none
    else
      let entries ← Node.entries? pairs
      ofEntries? (← entries.mapM fun pair => (nodeText? pair.1).map (·, pair.2))
  | _ => none

/-- The configuration that a YAML text denotes. -/
def readYaml? (text : String) : Option Config := (Yaml.read? text).bind ofNode?

end SchemaCatalog.Config
