import SchemaCatalog.Json.Value
import SchemaCatalog.Text.Hex

/-!
# SchemaCatalog.Json.Writer

The text of a JSON value, in one line or with a line for every item.

Strings escape quotes, backslashes and the control characters below U+0020, and nothing else.
The two layouts differ only in the blanks between tokens, so they are one function.
-/

namespace SchemaCatalog.Json

open Text

/-- How blanks are set between tokens. -/
inductive Layout where
  | compact
  /-- A line for every item, indented by two spaces for every level. -/
  | pretty
deriving DecidableEq, Repr

namespace Writer

/-- How a character is written inside quotes. -/
def escapeChar (c : Char) : List Char :=
  if c = '"' then ['\\', '"']
  else if c = '\\' then ['\\', '\\']
  else if c = '\x08' then ['\\', 'b']
  else if c = '\x0c' then ['\\', 'f']
  else if c = '\n' then ['\\', 'n']
  else if c = '\r' then ['\\', 'r']
  else if c = '\t' then ['\\', 't']
  else if c.toNat < 0x20 then
    ['\\', 'u', '0', '0', hexDigit (c.toNat / 16), hexDigit (c.toNat % 16)]
  else [c]

/-- A string literal. One that denotes no text is written with half of a surrogate pair. -/
def string : Option String → List Char
  | some s => '"' :: (s.toList.flatMap escapeChar ++ ['"'])
  | none => ['"', '\\', 'u', 'd', '8', '0', '0', '"']

/-- The decimal digits of a number. -/
def digits (n : Nat) : List Char :=
  if n < 10 then [Char.ofNat ('0'.toNat + n)]
  else digits (n / 10) ++ [Char.ofNat ('0'.toNat + n % 10)]

def numeral (n : Numeral) : List Char :=
  (if n.negative then ['-'] else []) ++ (digits n.whole ++ n.tail)

/-- What stands before an item, or a closing bracket, at a level. -/
def gap : Layout → Nat → List Char
  | .compact, _ => []
  | .pretty, level => '\n' :: List.replicate (2 * level) ' '

/-- What stands between a key and its value. -/
def colon : Layout → List Char
  | .compact => [':']
  | .pretty => [':', ' ']

mutual

/-- The text of a value whose items are at one level below `level`. -/
def value (layout : Layout) (level : Nat) : Json → List Char
  | .null => ['n', 'u', 'l', 'l']
  | .bool true => ['t', 'r', 'u', 'e']
  | .bool false => ['f', 'a', 'l', 's', 'e']
  | .number n => numeral n
  | .string s => string s
  | .array [] => ['[', ']']
  | .array (first :: rest) =>
    '[' :: (gap layout (level + 1) ++ (value layout (level + 1) first ++
      (items layout (level + 1) rest ++ (gap layout level ++ [']']))))
  | .object [] => ['\x7b', '\x7d']
  | .object ((key, first) :: rest) =>
    '\x7b' :: (gap layout (level + 1) ++ (string key ++ (colon layout ++
      (value layout (level + 1) first ++
        (members layout (level + 1) rest ++ (gap layout level ++ ['\x7d']))))))

/-- The items of an array behind the first one. -/
def items (layout : Layout) (level : Nat) : List Json → List Char
  | [] => []
  | item :: rest =>
    ',' :: (gap layout level ++ (value layout level item ++ items layout level rest))

/-- The members of an object behind the first one. -/
def members (layout : Layout) (level : Nat) : List (Option String × Json) → List Char
  | [] => []
  | (key, item) :: rest =>
    ',' :: (gap layout level ++ (string key ++ (colon layout ++
      (value layout level item ++ members layout level rest))))

end

end Writer

def chars (layout : Layout) (j : Json) : List Char := Writer.value layout 0 j

/-- The text of a value. -/
def render (layout : Layout) (j : Json) : String := String.ofList (j.chars layout)

end SchemaCatalog.Json
