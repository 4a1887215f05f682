import SchemaCatalog.Text.Hex
import SchemaCatalog.Text.Surrogate

/-!
# SchemaCatalog.Sdl.StringLiteral

String literals of the schema language: how far a literal reaches, what is wrong with it, and
which text it denotes.

A quoted literal is read one character at a time by a small machine, whose phase says what the
next character may be. The same machine gives the extent of the literal, the last complaint
about it, and its text, so the three cannot drift apart. A block literal is raw text whose
common indentation does not count.
-/

namespace SchemaCatalog.Sdl.StringLiteral

open Text

/-! ## The machine for quoted literals -/

/-- What the next character of a quoted literal may be. -/
inductive Phase where
  /-- Just behind the opening quote, where even a line end goes unremarked. -/
  | opening
  | body
  /-- Behind a backslash. -/
  | escape
  /-- Behind the u of an escape and `count` digits, whose value is `value`. With `lead`, the
  escape is the second of a pair. -/
  | hex (count value : Nat) (lead : Option Nat)
  /-- Behind an opening brace and `count` digits. -/
  | braced (count value : Nat)
  /-- Behind the first of a pair of surrogates, where a backslash has to follow. -/
  | pairSlash (lead : Nat)
  /-- Behind that backslash. -/
  | pairU (lead : Nat)
deriving DecidableEq, Repr

/-- What one character does. -/
inductive Step where
  /-- The literal goes on, and the character completes this text. -/
  | read (next : Phase) (text : List Char)
  /-- The literal goes on, but there is something wrong. -/
  | complain (next : Phase) (why : String)
  | close
  | closeComplaining (why : String)
deriving DecidableEq, Repr

/-- The character that a one-letter escape stands for. -/
def shortEscape? : Char → Option Char
  | '"' => some '"'
  | '\\' => some '\\'
  | '/' => some '/'
  | 'b' => some '\x08'
  | 'f' => some '\x0c'
  | 'n' => some '\n'
  | 'r' => some '\r'
  | 't' => some '\t'
  | _ => none

def unpaired : String := "unpaired surrogate in unicode escape sequence"

/-- What a complete four-digit escape does. -/
def closeHex (value : Nat) : Option Nat → Step
  | some lead =>
    if isTrailSurrogate value then .read .body [joinSurrogates lead value]
    else .complain .body unpaired
  | none =>
    if isTrailSurrogate value then .complain .body unpaired
    else if isLeadSurrogate value then .read (.pairSlash value) []
    else .read .body [Char.ofNat value]

/-- What the character at the end of a braced escape does. -/
def closeBraces (c : Char) (count value : Nat) : Step :=
  if c = '}' then
    if count = 0 ∨ isScalarValue value = false then
      .complain .body "unicode escape sequence must specify a Unicode scalar value"
    else .read .body [Char.ofNat value]
  else if c = '"' then .closeComplaining "incomplete unicode escape sequence"
  else .complain .body "invalid unicode escape sequence"

def Phase.step : Phase → Char → Step
  | opening, c =>
    if c = '"' then .close
    else if c = '\\' then .read escape []
    else .read body [c]
  | body, c =>
    if c = '"' then .close
    else if c = '\\' then .read escape []
    else if c = '\n' ∨ c = '\r' then .complain body "unexpected line terminator"
    else .read body [c]
  | escape, c =>
    if c = 'u' then .read (hex 0 0 none) []
    else match shortEscape? c with
      | some meant => .read body [meant]
      | none => .complain body "unexpected escaped character"
  | hex count value lead, c =>
    match hexDigit? c with
    | some digit =>
      if count = 3 then closeHex (value * 16 + digit) lead
      else .read (hex (count + 1) (value * 16 + digit) lead) []
    | none =>
      if c = '{' ∧ count = 0 ∧ lead = none then .read (braced 0 0) []
      else if c = '"' then .closeComplaining "incomplete unicode escape sequence"
      else .complain body "invalid unicode escape sequence"
  | braced count value, c =>
    match hexDigit? c with
    | some digit => .read (braced (count + 1) (value * 16 + digit)) []
    | none => closeBraces c count value
  | pairSlash lead, c =>
    if c = '"' then .closeComplaining unpaired
    else if c = '\\' then .read (pairU lead) []
    else .complain body unpaired
  | pairU lead, c =>
    if c = 'u' then .read (hex 0 0 (some lead)) [] else .complain body unpaired

/-- Nothing wrong, or the complaint. -/
def verdict : Option String → Except String Unit
  | none => .ok ()
  | some why => .error why

/-- The outcome of a quoted literal and the number of characters read: the last complaint wins,
and a literal that never closes reaches to the end of the text. -/
def measureQuoted : Phase → Option String → Nat → List Char → Except String Unit × Nat
  | _, _, count, [] => (.error "unterminated string value", count)
  | phase, complaint, count, c :: rest =>
    match phase.step c with
    | .read next _ => measureQuoted next complaint (count + 1) rest
    | .complain next why => measureQuoted next (some why) (count + 1) rest
    | .close => (verdict complaint, count + 1)
    | .closeComplaining why => (.error why, count + 1)

/-- The number of characters up to and with the closing quotes of a block literal. `slashed`
means that backslashes stand just before, so that the next quotes do not close. -/
def measureBlock? : (slashed : Bool) → Nat → List Char → Option Nat
  | false, count, '"' :: '"' :: '"' :: _ => some (count + 3)
  | false, count, '"' :: '"' :: rest => measureBlock? false (count + 2) rest
  | false, count, c :: rest => measureBlock? (c = '\\') (count + 1) rest
  | true, count, '"' :: '"' :: '"' :: rest => measureBlock? false (count + 3) rest
  | true, count, '"' :: '"' :: rest => measureBlock? false (count + 2) rest
  | true, count, c :: rest => measureBlock? (c = '\\') (count + 1) rest
  | _, _, [] => none

/-- The outcome and the length of the literal whose opening quote stands before `rest`; the
length does not count that quote. -/
def measure : List Char → Except String Unit × Nat
  | [] => (.error "unexpected end of data while lexing string value", 0)
  | '"' :: '"' :: rest =>
    match measureBlock? false 2 rest with
    | some count => (.ok (), count)
    | none => (.error "unterminated string value", rest.length + 2)
  | rest => measureQuoted .opening none 0 rest

/-! ## The text of a literal -/

/-- The text that the characters of a quoted literal denote, up to its closing quote. -/
def quotedText : Phase → List Char → List Char
  | _, [] => []
  | phase, c :: rest =>
    match phase.step c with
    | .read next text => text ++ quotedText next rest
    | .complain next _ => quotedText next rest
    | .close => []
    | .closeComplaining _ => []

/-- The lines of a text; a line ends at a carriage return, a line feed, or the two together. -/
def lines : List Char → List (List Char)
  | [] => [[]]
  | '\r' :: '\n' :: rest => [] :: lines rest
  | '\r' :: rest => [] :: lines rest
  | '\n' :: rest => [] :: lines rest
  | c :: rest =>
    match lines rest with
    | [] => [[c]]
    | line :: more => (c :: line) :: more

def isIndent (c : Char) : Bool := c = ' ' || c = '\t'

/-- The indentation of a line that has something else, `none` for a blank one. -/
def indent? (line : List Char) : Option Nat :=
  if line.all isIndent then none else some (line.takeWhile isIndent).length

/-- The least indentation of the lines that have one. -/
def commonIndent (ls : List (List Char)) : Nat :=
  ((ls.filterMap indent?).min?).getD 0

def dropBlankLines (ls : List (List Char)) : List (List Char) :=
  ls.dropWhile (·.all isIndent)

/-- An escaped triple quote stands for three quotes; nothing else is an escape in a block. -/
def unescapeBlock : List Char → List Char
  | '\\' :: '"' :: '"' :: '"' :: rest => '"' :: '"' :: '"' :: unescapeBlock rest
  | c :: rest => c :: unescapeBlock rest
  | [] => []

/-- The text that the raw characters between triple quotes denote. -/
def blockText (raw : List Char) : List Char :=
  let kept :=
    match lines raw with
    | [] => []
    | first :: rest => first :: rest.map (·.drop (commonIndent rest))
  let trimmed := (dropBlankLines (dropBlankLines kept).reverse).reverse
  unescapeBlock (['\n'].intercalate trimmed)

/-- The text that a well-formed literal, given with its quotes, denotes. -/
def value (literal : List Char) : List Char :=
  match literal with
  | '"' :: '"' :: '"' :: rest => blockText (rest.take (rest.length - 3))
  | _ :: rest => quotedText .opening rest
  | [] => []

/-! ## Writing literals -/

/-- How a character is written inside quotes: quotes, backslashes and control characters are
escaped, everything else stands for itself. -/
def escapeChar (c : Char) : List Char :=
  if c = '"' then ['\\', '"']
  else if c = '\\' then ['\\', '\\']
  else if c = '\x08' then ['\\', 'b']
  else if c = '\x0c' then ['\\', 'f']
  else if c = '\n' then ['\\', 'n']
  else if c = '\r' then ['\\', 'r']
  else if c = '\t' then ['\\', 't']
  else if c.toNat < 0x20 then
    ['\\', 'u', '0', '0', hexDigit (c.toNat / 16), hexDigit (c.toNat % 16)]
  else [c]

/-- A quoted literal that denotes the text. -/
def write (text : List Char) : List Char := '"' :: (text.flatMap escapeChar ++ ['"'])

end SchemaCatalog.Sdl.StringLiteral
