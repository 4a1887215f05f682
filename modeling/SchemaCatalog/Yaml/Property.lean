import SchemaCatalog.Text.Hex
import SchemaCatalog.Text.Utf8
import SchemaCatalog.Yaml.Source
import SchemaCatalog.Yaml.Token

/-!
# SchemaCatalog.Yaml.Property

Anchors, aliases, tags and directives: what is said about a node or about a document rather than
written in it.
-/

namespace SchemaCatalog.Yaml.Property

open Text

/-! ## Anchors and aliases -/

def isAnchorChar (c : Char) : Bool :=
  !(isBlank c || isBreak c || isFlow c || c = '\ufeff')

/-- The name behind an ampersand or a star. -/
def anchorName? (p : Place) : Option (String × Place) :=
  let name := p.rest.takeWhile isAnchorChar
  if name.isEmpty then none else some (String.ofList name, p.forward name.length)

/-! ## Tags -/

/-- The characters of a tag between angle brackets. -/
def isUriChar (c : Char) : Bool :=
  (isWord c && c ≠ '_') ||
    "#;/?:@&=+$,_.!~*'()[]%".toList.contains c

/-- The characters of a tag behind its handle. -/
def isTagChar (c : Char) : Bool := isUriChar c && !isFlow c && c ≠ '!'

/-- The number of bytes of the sequence that a byte starts. -/
def sequenceLength? (b : Nat) : Option Nat :=
  if b < 0x80 then some 1
  else if b / 0x20 = 0x06 then some 2
  else if b / 0x10 = 0x0E then some 3
  else if b / 0x08 = 0x1E then some 4
  else none

/-- The bytes of percent escapes, so many of them. -/
def escapedBytes? : Nat → List Char → Option (List UInt8)
  | 0, _ => some []
  | n + 1, '%' :: a :: b :: rest => do
    let high ← hexDigit? a
    let low ← hexDigit? b
    return UInt8.ofNat (high * 16 + low) :: (← escapedBytes? n rest)
  | _, _ => none

/-- The character that percent escapes name, and the number of escapes. -/
def escapedChar? (cs : List Char) : Option (Char × Nat) := do
  let first ← (← escapedBytes? 1 cs).head?
  let count ← sequenceLength? first.toNat
  let bytes ← escapedBytes? count cs
  match Utf8.characters bytes with
  | [c] => if c = Utf8.replacement then none else some (c, count)
  | _ => none

/-- The characters of a class up to the first other one, with percent escapes decoded. -/
def uriText? (test : Char → Bool) (p : Place) : Option (List Char × Place) :=
  match _h : p.rest with
  | [] => some ([], p)
  | c :: _ =>
    if !test c then some ([], p)
    else if c = '%' then
      match escapedChar? p.rest with
      | none => none
      | some (meant, count) =>
        match uriText? test (p.forward (3 * (count - 1) + 3)) with
        | some (text, q) => some (meant :: text, q)
        | none => none
    else
      match uriText? test (p.forward 1) with
      | some (text, q) => some (c :: text, q)
      | none => none
termination_by p.rest.length
decreasing_by
  · simp only [Place.forward, _h, List.length_drop, List.length_cons]; omega
  · simp [Place.forward, _h]

/-- A handle: an exclamation mark, or a word between two of them. -/
def handle? (p : Place) : Option (List Char × Place) :=
  match p.rest with
  | '!' :: rest =>
    let word := rest.takeWhile isWord
    let q := p.forward (1 + word.length)
    match q.rest with
    | '!' :: _ => some ('!' :: (word ++ ['!']), q.forward 1)
    | _ => some ('!' :: word, q)
  | _ => none

/-- Whether a handle is closed by a second exclamation mark. -/
def isClosed (handle : List Char) : Bool := 2 ≤ handle.length && handle.getLast? = some '!'

/-- The tag whose exclamation mark stands at a place, as a handle and what follows it. -/
def tag? (p : Place) : Option (Token × Place) :=
  match p.rest with
  | '!' :: '<' :: _ => do
    let (uri, q) ← uriText? isUriChar (p.forward 2)
    match q.rest with
    | '>' :: _ => some (.tag "" (String.ofList uri), q.forward 1)
    | _ => none
  | _ => do
    let (handle, q) ← handle? p
    let (text, r) ← uriText? isTagChar q
    if isClosed handle then
      if handle = ['!', '!'] ∧ text = [] then none
      else some (.tag (String.ofList handle) (String.ofList text), r)
    else
      match handle.drop 1 ++ text with
      | [] => some (.tag "" "!", r)
      | suffix => some (.tag "!" (String.ofList suffix), r)

/-- A tag, which ends at a blank or, in a flow collection, at its punctuation. -/
def scanTag? (inFlow : Bool) (p : Place) : Option (Token × Place) := do
  let (token, q) ← tag? p
  if atBlankOrEnd q.rest || (inFlow && endsOr isFlow q.rest) then some (token, q) else none

/-! ## Directives -/

/-- A number of at most nine digits. -/
def versionNumber? (p : Place) : Option Place :=
  let n := (p.rest.takeWhile isDigit).length
  if 0 < n ∧ n ≤ 9 then some (p.forward n) else none

/-- The two numbers of a version. -/
def version? (p : Place) : Option Place := do
  let q ← versionNumber? (p.past isBlank)
  match q.rest with
  | '.' :: _ => versionNumber? (q.forward 1)
  | _ => none

/-- A handle and what it stands for. -/
def handleDirective? (p : Place) : Option (Token × Place) := do
  let (handle, q) ← handle? (p.past isBlank)
  if handle ≠ ['!'] ∧ isClosed handle = false then none
  else
    let q := q.past isBlank
    match q.rest with
    | [] => none
    | c :: _ =>
      if c = '!' then
        let (text, r) ← uriText? isUriChar (q.forward 1)
        if atBlankOrEnd r.rest then
          some (.handle (String.ofList handle) (String.ofList ('!' :: text)), r)
        else none
      else if isTagChar c then
        let (text, r) ← uriText? isUriChar q
        if atBlankOrEnd r.rest then
          some (.handle (String.ofList handle) (String.ofList text), r)
        else none
      else none

/-- A directive behind its percent sign. It fills its line. -/
def directive? (p : Place) : Option (Token × Place) := do
  let name := p.rest.takeWhile isWord
  let q := p.forward name.length
  if name.isEmpty || !atBlankOrEnd q.rest then none
  else
    let (token, r) ←
      if name = "YAML".toList then (version? q).map (Token.version, ·)
      else if name = "TAG".toList then handleDirective? q
      else some (.reservedDirective, q.lineEnd)
    let r ← r.tail?
    if r.rest.isEmpty then some (token, r)
    else if atLineEnd r.rest then some (token, r.newline)
    else none

end SchemaCatalog.Yaml.Property
