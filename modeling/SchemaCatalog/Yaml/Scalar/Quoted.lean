import SchemaCatalog.Text.Hex
import SchemaCatalog.Text.Surrogate
import SchemaCatalog.Yaml.Source

/-!
# SchemaCatalog.Yaml.Scalar.Quoted

Scalars in single or double quotes.

Line breaks inside the quotes are folded: one becomes a space, of several the first vanishes,
and blanks around them do not count. Between double quotes a backslash starts an escape, and one
at the end of a line joins it with the next.
-/

namespace SchemaCatalog.Yaml.Quoted

open Text

/-- What stands between the last character that counts and this place. -/
inductive Gap where
  | none
  | blanks (text : List Char)
  /-- A line that ends in a backslash has just ended. -/
  | escaped
  /-- Line breaks, of which `extra` came after the first; `folds` unless it was escaped. -/
  | broken (folds : Bool) (extra : Nat)
deriving DecidableEq, Repr

/-- The text that a gap contributes. -/
def Gap.text : Gap → List Char
  | none => []
  | blanks text => text
  | escaped => []
  | broken true 0 => [' ']
  | broken _ extra => List.replicate extra '\n'

def Gap.afterBreak : Gap → Gap
  | none | blanks _ => broken true 0
  | escaped => broken false 1
  | broken folds extra => broken folds (extra + 1)

/-- A blank joins the gap. A tab does not indent a line. -/
def Gap.afterBlank? (c : Char) (underIndented : Bool) : Gap → Option Gap
  | none => some (blanks [c])
  | blanks text => some (blanks (text ++ [c]))
  | escaped => if c = '\t' ∧ underIndented then Option.none else some (broken false 0)
  | broken folds extra =>
    if c = '\t' ∧ underIndented then Option.none else some (broken folds extra)

/-- The character that hexadecimal digits name. -/
def hexChar? (digits : List Char) : Option Char := do
  let values ← digits.mapM hexDigit?
  let n := values.foldl (fun n d => n * 16 + d) 0
  if isScalarValue n then some (Char.ofNat n) else Option.none

/-- The character that an escape with digits names, and how long the escape is. -/
def hexEscape? (count : Nat) (digits : List Char) : Option (Char × Nat) :=
  if digits.length < count then Option.none
  else (hexChar? (digits.take count)).map (·, count + 1)

/-- The character that an escape names, and how many characters belong to it, given what stands
behind the backslash. -/
def escape? : List Char → Option (Char × Nat)
  | [] => Option.none
  | 'x' :: rest => hexEscape? 2 rest
  | 'u' :: rest => hexEscape? 4 rest
  | 'U' :: rest => hexEscape? 8 rest
  | c :: _ =>
    let meant : Option Char := match c with
      | '0' => some '\x00'
      | 'a' => some '\x07'
      | 'b' => some '\x08'
      | 't' | '\t' => some '\t'
      | 'n' => some '\n'
      | 'v' => some '\x0b'
      | 'f' => some '\x0c'
      | 'r' => some '\r'
      | 'e' => some '\x1b'
      | ' ' => some ' '
      | '"' => some '"'
      | '/' => some '/'
      | '\\' => some '\\'
      | 'N' => some '\u0085'
      | '_' => some '\u00a0'
      | 'L' => some '\u2028'
      | 'P' => some '\u2029'
      | _ => Option.none
    meant.map (·, 1)

/-- What a character that is neither blank nor line break does. -/
inductive Step where
  | close
  /-- The text gets a character, and so many characters are read. -/
  | char (c : Char) (count : Nat)
  /-- A backslash at the end of a line. -/
  | join
deriving DecidableEq, Repr

def step? (single : Bool) (c : Char) (rest : List Char) : Option Step :=
  if single then
    if c = '\'' then
      match rest with
      | '\'' :: _ => some (.char '\'' 2)
      | _ => some .close
    else some (.char c 1)
  else if c = '"' then some .close
  else if c = '\\' then
    match rest with
    | d :: _ =>
      if isBreak d then some .join
      else (escape? rest).map fun (meant, count) => .char meant (count + 1)
    | [] => Option.none
  else some (.char c 1)

/-- Whether content may stand at a place: lines have to be indented, and a line that marks the
end or start of a document ends every scalar. -/
def admits (indent : Int) (p : Place) : Bool :=
  !(p.column = 0 && atDocumentMark p.rest) && decide (indent ≤ p.column)

/-- The text of a scalar up to its closing quote, and the place behind that quote. `fresh` means
that no content of the line has been read yet, so that its place has to be checked. -/
def read? (single : Bool) (indent : Int) (gap : Gap) (fresh : Bool) (p : Place) :
    Option (List Char × Place) :=
  match _h : p.rest with
  | [] => Option.none
  | c :: rest =>
    if isBlank c then
      match gap.afterBlank? c (decide ((p.column : Int) < indent)) with
      | some gap => read? single indent gap true (p.forward 1)
      | Option.none => Option.none
    else if isBreak c then read? single indent gap.afterBreak true p.newline
    else
      match step? single c rest with
      | Option.none => Option.none
      | some .close =>
        if !fresh || gap = .escaped || admits indent p then some (gap.text, p.forward 1)
        else Option.none
      | some (.char meant count) =>
        if !fresh || admits indent p then
          match read? single indent .none false (p.forward (count - 1 + 1)) with
          | some (text, q) => some (gap.text ++ meant :: text, q)
          | Option.none => Option.none
        else Option.none
      | some .join =>
        if !fresh || admits indent p then
          match read? single indent .escaped true (p.forward 1).newline with
          | some (text, q) => some (gap.text ++ text, q)
          | Option.none => Option.none
        else Option.none
termination_by p.rest.length
decreasing_by
  · simp [Place.forward, _h]
  · exact Place.length_newline_lt p (by simp [_h])
  · simp only [Place.forward, _h, List.length_drop, List.length_cons]; omega
  · simp only [Place.newline, Place.forward, _h, List.length_drop, List.length_cons]; omega

/-- What may follow a quoted scalar on its line: in a flow collection its punctuation, the colon
of a key, or nothing. A key outside of flow collections stays on one line. -/
def mayEnd (inFlow : Bool) (startLine : Nat) (p : Place) : Bool :=
  match p.rest with
  | [] => true
  | c :: _ =>
    isBreak c || (inFlow && (c = ',' || c = '\x7d' || c = ']' || c = ':'))
      || (c = ':' && startLine = p.line)

/-- The scalar whose opening quote stands at a place. -/
def scalar? (single inFlow : Bool) (indent : Int) (p : Place) : Option (String × Place) := do
  let (text, q) ← read? single indent (.blanks []) true (p.forward 1)
  let q ← q.tail?
  if mayEnd inFlow p.line q then some (String.ofList text, q) else Option.none

end SchemaCatalog.Yaml.Quoted
