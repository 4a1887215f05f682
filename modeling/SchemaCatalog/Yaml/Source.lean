/-!
# SchemaCatalog.Yaml.Source

Places in a YAML text.

The meaning of a character depends on its column and on what was before it on its line, so a
place counts characters, lines and columns while it moves.
-/

namespace SchemaCatalog.Yaml

/-! ## Characters -/

def isBlank (c : Char) : Bool := c = ' ' || c = '\t'

def isBreak (c : Char) : Bool := c = '\n' || c = '\r'

/-- The characters that separate and enclose the parts of a flow collection. -/
def isFlow (c : Char) : Bool := [',', '[', ']', '\x7b', '\x7d'].contains c

def isDigit (c : Char) : Bool := '0' ≤ c && c ≤ '9'

/-- The characters of the names of directives and tag handles. -/
def isWord (c : Char) : Bool :=
  isDigit c || ('a' ≤ c && c ≤ 'z') || ('A' ≤ c && c ≤ 'Z') || c = '_' || c = '-'

/-- Whether a text is at its end or goes on with a character of a class. -/
def endsOr (test : Char → Bool) : List Char → Bool
  | [] => true
  | c :: _ => test c

/-- Whether nothing more stands on the line. -/
def atLineEnd : List Char → Bool := endsOr isBreak

def atBlankOrEnd : List Char → Bool := endsOr fun c => isBlank c || isBreak c

/-- Whether three hyphens stand here alone, which start a document. -/
def atDocumentStart : List Char → Bool
  | '-' :: '-' :: '-' :: rest => atBlankOrEnd rest
  | _ => false

/-- Whether three points stand here alone, which end a document. -/
def atDocumentEnd : List Char → Bool
  | '.' :: '.' :: '.' :: rest => atBlankOrEnd rest
  | _ => false

def atDocumentMark (cs : List Char) : Bool := atDocumentStart cs || atDocumentEnd cs

/-! ## Places -/

structure Place where
  rest : List Char
  index : Nat
  line : Nat
  column : Nat
deriving DecidableEq, Repr

namespace Place

/-- The start of a text. One byte order mark does not count, and a zero character ends the
text. -/
def start (text : List Char) : Place :=
  let text := match text with
    | '\ufeff' :: rest => rest
    | cs => cs
  ⟨text.takeWhile (· ≠ '\x00'), 0, 0, 0⟩

/-- So many characters further on the same line. -/
def forward (p : Place) (n : Nat) : Place :=
  ⟨p.rest.drop n, p.index + n, p.line, p.column + n⟩

/-- Behind the line break that stands here. -/
def newline (p : Place) : Place :=
  let n := match p.rest with
    | '\r' :: '\n' :: _ => 2
    | _ => 1
  ⟨p.rest.drop n, p.index + n, p.line + 1, 0⟩

/-- Behind the characters of a class that contains no line breaks. -/
def past (p : Place) (test : Char → Bool) : Place :=
  p.forward (p.rest.takeWhile test).length

/-- At the end of the line. -/
def lineEnd (p : Place) : Place := p.past fun c => !isBreak c

/-- Behind the blanks that stand here and a comment behind them. A comment needs a blank before
it. -/
def tail? (p : Place) : Option Place :=
  let q := p.past isBlank
  match q.rest with
  | '#' :: _ => if q.column = p.column then none else some q.lineEnd
  | _ => some q

theorem rest_forward (p : Place) (n : Nat) : (p.forward n).rest = p.rest.drop n := rfl

theorem length_newline_lt (p : Place) (h : p.rest ≠ []) :
    p.newline.rest.length < p.rest.length := by
  have : 0 < p.rest.length := List.length_pos_iff.2 h
  simp only [newline, List.length_drop]
  split <;> omega

end Place

end SchemaCatalog.Yaml
