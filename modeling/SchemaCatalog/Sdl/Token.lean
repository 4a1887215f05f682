import SchemaCatalog.Sdl.StringLiteral

/-!
# SchemaCatalog.Sdl.Token

The lexemes of a schema text: its tokens, ignored ones included, and the stretches that are no
token, each with its byte offset.

`Lexeme.scan` cuts a text into lexemes. Nothing is lost: the texts of the lexemes, one behind
the other, are the text that was scanned (`flatMap_text_scan`).
-/

namespace SchemaCatalog.Sdl

/-- A complaint about a schema text at a byte offset. -/
structure SyntaxError where
  message : String
  offset : Nat
deriving DecidableEq, Repr

inductive Kind where
  | punctuator (c : Char)
  | spread
  | name
  | int
  | float
  | string
  | blank
  | comment
  | endOfInput
deriving DecidableEq, Repr

structure Token where
  kind : Kind
  text : String
  offset : Nat
deriving DecidableEq, Repr

inductive Lexeme where
  | token (t : Token)
  | invalid (error : SyntaxError) (text : String)
deriving DecidableEq, Repr

def Lexeme.text : Lexeme → String
  | .token t => t.text
  | .invalid _ text => text

def Lexeme.offset : Lexeme → Nat
  | .token t => t.offset
  | .invalid error _ => error.offset

/-- Where a token ends. -/
def Token.stop (t : Token) : Nat := t.offset + t.text.utf8ByteSize

/-! ## Characters -/

def isDigit (c : Char) : Bool := '0' ≤ c && c ≤ '9'

def isNameStart (c : Char) : Bool :=
  ('a' ≤ c && c ≤ 'z') || ('A' ≤ c && c ≤ 'Z') || c = '_'

def isNamePart (c : Char) : Bool := isNameStart c || isDigit c

def isPunctuator (c : Char) : Bool :=
  ['{', '}', '!', '$', '&', '(', ')', ':', ',', '[', ']', '=', '@', '|'].contains c

/-- Tabs, spaces, line ends and byte order marks separate tokens. -/
def isBlank (c : Char) : Bool := ['\t', ' ', '\n', '\r', '\ufeff'].contains c

def isLineEnd (c : Char) : Bool := c = '\n' || c = '\r'

def isExponentMark (c : Char) : Bool := c = 'e' || c = 'E'

/-! ## Measuring one lexeme

Each function gives what a lexeme is, or the complaint, and how many characters belong to it.
A complaint takes the offending character along. -/

abbrev Measure := Except String Kind × Nat

def digitRun (cs : List Char) : Nat := (cs.takeWhile isDigit).length

namespace Number

/-- A complaint about one character. -/
def unexpected (c : Char) (what : String) : Except String Kind :=
  .error ("Unexpected character `" ++ c.toString ++ "`" ++ what)

def endOfFloat : Except String Kind := .error "Unexpected EOF in float value"

/-- A float may not run into a name or a point. -/
def floatEnd (count : Nat) : List Char → Measure
  | c :: _ =>
    if c = '.' ∨ isNameStart c then (unexpected c " as float suffix", count + 1)
    else (.ok .float, count)
  | [] => (.ok .float, count)

/-- The digits of an exponent behind its sign. -/
def exponentDigits (count : Nat) : List Char → Measure
  | [] => (endOfFloat, count)
  | c :: rest =>
    if isDigit c then
      let n := digitRun (c :: rest)
      floatEnd (count + n) ((c :: rest).drop n)
    else (unexpected c ", expected exponent digit", count + 1)

/-- Behind the mark of an exponent. -/
def exponent (count : Nat) : List Char → Measure
  | [] => (endOfFloat, count)
  | c :: rest =>
    if c = '+' ∨ c = '-' then exponentDigits (count + 1) rest
    else if isDigit c then
      let n := digitRun (c :: rest)
      floatEnd (count + n) ((c :: rest).drop n)
    else (unexpected c ", expected exponent digit or sign", count + 1)

/-- Behind the digits of a fraction. -/
def fractionEnd (count : Nat) : List Char → Measure
  | c :: rest => if isExponentMark c then exponent (count + 1) rest else floatEnd count (c :: rest)
  | [] => floatEnd count []

/-- Behind the point of a fraction. -/
def fraction (count : Nat) : List Char → Measure
  | [] => (endOfFloat, count)
  | c :: rest =>
    if isDigit c then
      let n := digitRun (c :: rest)
      fractionEnd (count + n) ((c :: rest).drop n)
    else (unexpected c ", expected fractional digit", count + 1)

/-- Behind the integer part. -/
def integerEnd (count : Nat) : List Char → Measure
  | c :: rest =>
    if c = '.' then fraction (count + 1) rest
    else if isExponentMark c then exponent (count + 1) rest
    else if isNameStart c then (unexpected c " as integer suffix", count + 1)
    else (.ok .int, count)
  | [] => (.ok .int, count)

/-- The digits of the integer part; a leading zero stands alone. -/
def unsigned (count : Nat) : List Char → Measure
  | '0' :: d :: rest =>
    if isDigit d then
      (.error "Numbers must not have non-significant leading zeroes", count + 2)
    else integerEnd (count + 1) (d :: rest)
  | cs =>
    let n := digitRun cs
    integerEnd (count + n) (cs.drop n)

end Number

/-- A number that starts with the character `c`, a digit or a minus sign. -/
def measureNumber (c : Char) (rest : List Char) : Measure :=
  if c = '-' then
    match rest with
    | [] => (.error "Unexpected character \"-\"", 1)
    | d :: more =>
      if isDigit d then Number.unsigned 1 (d :: more) else (Number.unexpected d "", 2)
  else Number.unsigned 0 (c :: rest)

/-- Three points; with fewer, the next character is lost as well. -/
def measureSpread : List Char → Measure
  | '.' :: '.' :: _ => (.ok .spread, 3)
  | _ => (.error "Unterminated spread operator", 2)

/-- The lexeme that starts with the character `c`. -/
def measure (c : Char) (rest : List Char) : Measure :=
  if isPunctuator c then (.ok (.punctuator c), 1)
  else if isNameStart c then (.ok .name, (rest.takeWhile isNamePart).length + 1)
  else if isBlank c then (.ok .blank, (rest.takeWhile isBlank).length + 1)
  else if c = '#' then (.ok .comment, (rest.takeWhile fun d => !isLineEnd d).length + 1)
  else if c = '"' then
    let (outcome, count) := StringLiteral.measure rest
    (outcome.map fun _ => .string, count + 1)
  else if c = '.' then measureSpread rest
  else if c = '-' ∨ isDigit c then measureNumber c rest
  else (.error ("Unexpected character \"" ++ c.toString ++ "\""), 1)

/-! ## Cutting a text into lexemes -/

namespace Lexeme

/-- A lexeme from its measure, its place and its text. -/
def make (outcome : Except String Kind) (offset : Nat) (text : String) : Lexeme :=
  match outcome with
  | .ok kind => .token ⟨kind, text, offset⟩
  | .error message => .invalid ⟨message, offset⟩ text

@[simp] theorem text_make (outcome : Except String Kind) (offset : Nat) (text : String) :
    (make outcome offset text).text = text := by
  cases outcome <;> rfl

/-- The lexemes of a text that starts at `offset`. The last one is the end of the input. -/
def scanFrom (offset : Nat) : List Char → List Lexeme
  | [] => [.token ⟨.endOfInput, "", offset⟩]
  | c :: rest =>
    let (outcome, count) := measure c rest
    let slice := String.ofList (c :: rest.take (count - 1))
    make outcome offset slice :: scanFrom (offset + slice.utf8ByteSize) (rest.drop (count - 1))
termination_by cs => cs.length
decreasing_by simp only [List.length_drop, List.length_cons]; omega

/-- The lexemes of a text. -/
def scan (text : String) : List Lexeme := scanFrom 0 text.toList

theorem scanFrom_nil (offset : Nat) :
    scanFrom offset [] = [.token ⟨.endOfInput, "", offset⟩] := by
  rw [scanFrom]

theorem scanFrom_cons (offset : Nat) (c : Char) (rest : List Char) :
    scanFrom offset (c :: rest) =
      make (measure c rest).1 offset (String.ofList (c :: rest.take ((measure c rest).2 - 1))) ::
        scanFrom
          (offset + (String.ofList (c :: rest.take ((measure c rest).2 - 1))).utf8ByteSize)
          (rest.drop ((measure c rest).2 - 1)) := by
  rw [scanFrom]

/-- The lexemes of a text, one behind the other, are the text. -/
theorem flatMap_text_scanFrom (offset : Nat) (cs : List Char) :
    (scanFrom offset cs).flatMap (fun l => l.text.toList) = cs := by
  fun_induction scanFrom offset cs with
  | case1 offset => simp [text]
  | case2 offset c rest outcome count h slice ih =>
    rw [List.flatMap_cons, ih, text_make, String.toList_ofList, List.cons_append,
      List.take_append_drop]

theorem flatMap_text_scan (text : String) :
    (scan text).flatMap (fun l => l.text.toList) = text.toList :=
  flatMap_text_scanFrom 0 text.toList

end Lexeme

end SchemaCatalog.Sdl
