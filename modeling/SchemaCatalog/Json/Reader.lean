import SchemaCatalog.Json.Value
import SchemaCatalog.Text.Hex
import SchemaCatalog.Text.Surrogate

/-!
# SchemaCatalog.Json.Reader

The JSON value that a text denotes, by the strict grammar: four kinds of blanks, no leading zeros,
no control characters in strings, no comments, nothing behind the value.

Values may nest to any depth. Every step of the reader takes a character or goes one rule down,
so twice the length of the text bounds the steps.
-/

namespace SchemaCatalog.Json

open Text

namespace Reader

def isBlank (c : Char) : Bool := c = ' ' || c = '\t' || c = '\n' || c = '\r'

def skip (cs : List Char) : List Char := cs.dropWhile isBlank

theorem skip_skip (cs : List Char) : skip (skip cs) = skip cs := by
  induction cs with
  | nil => rfl
  | cons c rest ih =>
    by_cases h : isBlank c = true
    · have hrest : skip (c :: rest) = skip rest := List.dropWhile_cons_of_pos h
      rw [hrest, ih]
    · have hsame : skip (c :: rest) = c :: rest := List.dropWhile_cons_of_neg h
      rw [hsame, hsame]

def isDigit (c : Char) : Bool := '0' ≤ c && c ≤ '9'

/-! ## Strings -/

/-- What a string literal is made of. -/
inductive Piece where
  | char (c : Char)
  /-- A four-digit escape, which may be half of a surrogate pair. -/
  | unit (n : Nat)
deriving DecidableEq, Repr

/-- The character that a one-letter escape stands for. -/
def shortEscape? : Char → Option Char
  | '"' => some '"'
  | '\\' => some '\\'
  | '/' => some '/'
  | 'b' => some '\x08'
  | 'f' => some '\x0c'
  | 'n' => some '\n'
  | 'r' => some '\r'
  | 't' => some '\t'
  | _ => none

/-- The number of a four-digit escape. -/
def hexUnit? (a b c d : Char) : Option Nat := do
  let a ← hexDigit? a
  let b ← hexDigit? b
  let c ← hexDigit? c
  let d ← hexDigit? d
  return ((a * 16 + b) * 16 + c) * 16 + d

/-- The pieces up to the closing quote, and what follows it. -/
def pieces : List Char → Option (List Piece × List Char)
  | [] => none
  | '"' :: rest => some ([], rest)
  | '\\' :: 'u' :: a :: b :: c :: d :: rest =>
    match hexUnit? a b c d, pieces rest with
    | some n, some (others, rest) => some (.unit n :: others, rest)
    | _, _ => none
  | '\\' :: letter :: rest =>
    match shortEscape? letter, pieces rest with
    | some meant, some (others, rest) => some (.char meant :: others, rest)
    | _, _ => none
  | c :: rest =>
    if c.toNat < 0x20 ∨ c = '\\' then none
    else match pieces rest with
      | some (others, rest) => some (.char c :: others, rest)
      | none => none

/-- The characters that pieces denote, unless there is half of a surrogate pair. -/
def joined : List Piece → Option (List Char)
  | [] => some []
  | .char c :: rest => (joined rest).map (c :: ·)
  | .unit lead :: .unit trail :: rest =>
    if isLeadSurrogate lead then
      if isTrailSurrogate trail then (joined rest).map (joinSurrogates lead trail :: ·) else none
    else if isTrailSurrogate lead then none
    else (joined (.unit trail :: rest)).map (Char.ofNat lead :: ·)
  | .unit n :: rest =>
    if isLeadSurrogate n || isTrailSurrogate n then none
    else (joined rest).map (Char.ofNat n :: ·)

/-- A string literal behind its opening quote. -/
def string (cs : List Char) : Option (Option String × List Char) :=
  (pieces cs).map fun (list, rest) => ((joined list).map String.ofList, rest)

/-! ## Numbers -/

/-- A run of at least one digit, and what follows it. -/
def digitRun (cs : List Char) : Option (List Char × List Char) :=
  match cs.takeWhile isDigit with
  | [] => none
  | run => some (run, cs.dropWhile isDigit)

/-- A whole number without leading zeros. -/
def whole : List Char → Option (Nat × List Char)
  | '0' :: rest => some (0, rest)
  | cs => (digitRun cs).map fun (run, rest) =>
    (run.foldl (fun n c => n * 10 + (c.toNat - '0'.toNat)) 0, rest)

/-- A fraction, if there is one. -/
def fraction : List Char → Option (List Char × List Char)
  | '.' :: rest => (digitRun rest).map fun (run, rest) => ('.' :: run, rest)
  | cs => some ([], cs)

/-- An exponent, if there is one. -/
def exponent : List Char → Option (List Char × List Char)
  | mark :: rest =>
    if mark = 'e' ∨ mark = 'E' then
      match rest with
      | sign :: more =>
        if sign = '+' ∨ sign = '-' then
          (digitRun more).map fun (run, rest) => (mark :: sign :: run, rest)
        else (digitRun rest).map fun (run, rest) => (mark :: run, rest)
      | [] => none
    else some ([], mark :: rest)
  | [] => some ([], [])

def unsigned (negative : Bool) (cs : List Char) : Option (Numeral × List Char) := do
  let (n, rest) ← whole cs
  let (part, rest) ← fraction rest
  let (power, rest) ← exponent rest
  return (⟨negative, n, part ++ power⟩, rest)

def numeral : List Char → Option (Numeral × List Char)
  | '-' :: rest => unsigned true rest
  | cs => unsigned false cs

/-! ## Values -/

mutual

/-- A value and what follows it, in so many steps. -/
def value : Nat → List Char → Option (Json × List Char)
  | 0, _ => none
  | steps + 1, cs =>
    match skip cs with
    | 'n' :: 'u' :: 'l' :: 'l' :: rest => some (.null, rest)
    | 't' :: 'r' :: 'u' :: 'e' :: rest => some (.bool true, rest)
    | 'f' :: 'a' :: 'l' :: 's' :: 'e' :: rest => some (.bool false, rest)
    | '"' :: rest => (string rest).map fun (s, rest) => (.string s, rest)
    | '[' :: rest =>
      match skip rest with
      | ']' :: rest => some (.array [], rest)
      | rest => (items steps rest).map fun (list, rest) => (.array list, rest)
    | '\x7b' :: rest =>
      match skip rest with
      | '\x7d' :: rest => some (.object [], rest)
      | rest => (members steps rest).map fun (list, rest) => (.object list, rest)
    | rest => (numeral rest).map fun (n, rest) => (.number n, rest)

/-- The items of an array, at least one, up to and with the closing bracket. -/
def items : Nat → List Char → Option (List Json × List Char)
  | 0, _ => none
  | steps + 1, cs =>
    match value steps cs with
    | none => none
    | some (item, rest) =>
      match skip rest with
      | ',' :: rest => (items steps rest).map fun (others, rest) => (item :: others, rest)
      | ']' :: rest => some ([item], rest)
      | _ => none

/-- The members of an object, at least one, up to and with the closing bracket. -/
def members : Nat → List Char → Option (List (Option String × Json) × List Char)
  | 0, _ => none
  | steps + 1, cs =>
    match skip cs with
    | '"' :: rest =>
      match string rest with
      | none => none
      | some (key, rest) =>
        match skip rest with
        | ':' :: rest =>
          match value steps rest with
          | none => none
          | some (item, rest) =>
            match skip rest with
            | ',' :: rest =>
              (members steps rest).map fun (others, rest) => ((key, item) :: others, rest)
            | '\x7d' :: rest => some ([(key, item)], rest)
            | _ => none
        | _ => none
    | _ => none

end

/-! ### Blanks before values -/

theorem value_skip (steps : Nat) (cs : List Char) : value steps (skip cs) = value steps cs := by
  cases steps with
  | zero => rw [value, value]
  | succ steps => rw [value, value, skip_skip]

theorem items_skip (steps : Nat) (cs : List Char) : items steps (skip cs) = items steps cs := by
  cases steps with
  | zero => rw [items, items]
  | succ steps => rw [items, items, value_skip]

theorem members_skip (steps : Nat) (cs : List Char) :
    members steps (skip cs) = members steps cs := by
  cases steps with
  | zero => rw [members, members]
  | succ steps => rw [members, members, skip_skip]

/-- A number of steps that suffices for a text. -/
def stepsFor (cs : List Char) : Nat := 2 * cs.length + 2

end Reader

/-- The value that the characters denote. -/
def readChars? (cs : List Char) : Option Json :=
  match Reader.value (Reader.stepsFor cs) cs with
  | some (j, rest) => if (Reader.skip rest).isEmpty then some j else none
  | none => none

/-- The value that a text denotes. -/
def read? (s : String) : Option Json := readChars? s.toList

end SchemaCatalog.Json
