import SchemaCatalog.Yaml.Source
import SchemaCatalog.Yaml.Token

/-!
# SchemaCatalog.Yaml.Token.Layout

Indentation and keys.

Two things about a YAML text are known only later than they are needed: that a node is the key
of a mapping shows at the colon behind it, and that a block collection ends shows at a line that
is indented less. So a scanner remembers where the last possible key stands on every level, puts
the tokens that announce it there when the colon comes, and keeps the columns of the blocks that
are still open.
-/

namespace SchemaCatalog.Yaml

/-- A node that is a key if a colon follows. -/
structure PossibleKey where
  /-- Whether the node can be nothing else. -/
  required : Bool
  /-- How many tokens stand before it. -/
  number : Nat
  index : Nat
  line : Nat
  column : Nat
deriving DecidableEq, Repr

/-- An indentation to go back to. -/
structure Indent where
  column : Int
  /-- Whether the indentation above it belongs to a block collection, which then ends. -/
  isBlock : Bool
deriving DecidableEq, Repr

/-- The two kinds of flow collections. -/
inductive Bracket where
  | square
  | curly
deriving DecidableEq, Repr

structure Scanner where
  place : Place
  /-- Whether nothing but blanks stands before the place on its line. -/
  fresh : Bool
  tokens : Array Token
  /-- The column of the last token if it is an anchor or a tag. -/
  propertyColumn : Option Nat
  /-- The column of the innermost block, or one more inside a value of it. -/
  indent : Int
  indents : List Indent
  /-- The flow collections that are open, the innermost first. -/
  brackets : List Bracket
  /-- The last possible key of every level, the innermost first. -/
  keys : List (Option PossibleKey)
  /-- Whether a key may start here. -/
  keyAllowed : Bool
  /-- For every open flow sequence, the level on which it holds a pair without brackets. -/
  pairs : List (Option Nat)
  /-- Whether the pairs of the current flow collection are announced by its bracket. -/
  bracketed : Bool
  /-- Where a colon needs no blank behind it. -/
  adjacentAt : Option Nat
  /-- The number of tokens that no later fault takes back. -/
  settled : Nat

/-- Scanning, which may fail and then keeps what it has so far. -/
abbrev Scan := ExceptT Unit (StateM Scanner)

namespace Scanner

def start (text : List Char) : Scanner where
  place := .start text
  fresh := true
  tokens := #[]
  propertyColumn := none
  indent := -1
  indents := []
  brackets := []
  keys := [none]
  keyAllowed := true
  pairs := []
  bracketed := false
  adjacentAt := none
  settled := 0

def inFlow (s : Scanner) : Bool := !s.brackets.isEmpty

def setKey (key : Option PossibleKey) (s : Scanner) : Scanner :=
  { s with keys := key :: s.keys.tail }

def push (token : Token) (s : Scanner) : Scanner :=
  { s with tokens := s.tokens.push token, propertyColumn := none }

/-- Put a token before the one with a number. -/
def insertAt (number : Nat) (token : Token) (s : Scanner) : Scanner :=
  { s with tokens := s.tokens.insertIdxIfInBounds number token }

/-- Close the blocks that stand further to the right than a column. -/
def closeBlocks (column : Int) (s : Scanner) : List Indent → Scanner
  | [] => s
  | level :: rest =>
    if column < s.indent then
      let s := { s with indent := level.column, indents := rest }
      closeBlocks column (if level.isBlock then s.push .blockEnd else s) rest
    else s

/-- Close blocks for a line that starts at a column; in flow collections lines do not count. -/
def unroll (column : Int) (s : Scanner) : Scanner :=
  if s.inFlow then s else s.closeBlocks column s.indents

/-- Leave the indentations that belong to no block. -/
def leaveValues (s : Scanner) : List Indent → Scanner
  | level :: rest =>
    if level.isBlock then s
    else leaveValues { s with indent := level.column, indents := rest } rest
  | [] => s

def unrollValues (s : Scanner) : Scanner := s.leaveValues s.indents

/-- Open a block collection at a column unless it is open. Its token goes before the token with
the number, if one is given. -/
def roll (column : Nat) (number : Option Nat) (token : Token) (s : Scanner) : Scanner :=
  if s.inFlow then s
  else
    let s := match s.indents with
      | level :: rest =>
        if s.indent ≤ (column : Int) ∧ level.isBlock = false then
          { s with indent := level.column, indents := rest }
        else s
      | [] => s
    if s.indent < (column : Int) then
      let s := { s with indent := column, indents := ⟨s.indent, true⟩ :: s.indents }
      match number with
      | some n => s.insertAt n token
      | none => s.push token
    else s

/-- Lines inside a value of a block have to be indented by one column at least. -/
def rollValue (s : Scanner) : Scanner :=
  match s.inFlow, s.indents with
  | false, level :: _ =>
    if level.isBlock then
      { s with indent := s.indent + 1, indents := ⟨s.indent, false⟩ :: s.indents }
    else s
  | _, _ => s

/-- Whether a key can be one no longer: outside of flow collections it ends on its line and is
not too long. -/
def isStale (s : Scanner) (key : PossibleKey) : Bool :=
  !s.inFlow && (key.line < s.place.line || key.index + 1024 < s.place.index)

/-- The number of tokens that stand before every possible key. -/
def known (s : Scanner) : Nat :=
  s.keys.foldl (fun n key =>
    match key with
    | some key => if s.isStale key && !key.required then n else min n key.number
    | none => n) s.tokens.size

end Scanner

namespace Scan

def fail {α : Type} : Scan α := throw ()

/-- Fail unless something is there. -/
def ofOption {α : Type} : Option α → Scan α
  | some a => return a
  | none => fail

def push (token : Token) : Scan Unit := modify (·.push token)

/-- Remember the place as that of a possible key, if a key may start here. -/
def saveKey : Scan Unit := modify fun s =>
  if s.keyAllowed then
    let required := !s.inFlow && s.indent = (s.place.column : Int) &&
      s.indents.head?.any (·.isBlock)
    s.setKey (some ⟨required, s.tokens.size, s.place.index, s.place.line, s.place.column⟩)
  else s

/-- Forget the possible key of this level, which must not be one that is required. -/
def dropKey : Scan Unit := do
  if (← get).keys.head?.join.any (·.required) then fail
  else modify (·.setKey none)

/-- A key that is too long, or on a line above, is none any more. -/
def dropStaleKey : Scan Unit := do
  let s ← get
  if s.keys.head?.join.any s.isStale then dropKey

/-- Settle the tokens before which every key is known. -/
def settle : Scan Unit := modify fun s => { s with settled := s.known }

def allowKey (allowed : Bool) : Scan Unit := modify ({ · with keyAllowed := allowed })

/-- Go on at a place that is not the start of a line. -/
def moveTo (p : Place) : Scan Unit := modify ({ · with place := p, fresh := false })

end Scan

end SchemaCatalog.Yaml
