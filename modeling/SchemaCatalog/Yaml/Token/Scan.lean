import SchemaCatalog.Yaml.Property
import SchemaCatalog.Yaml.Scalar.Block
import SchemaCatalog.Yaml.Scalar.Plain
import SchemaCatalog.Yaml.Scalar.Quoted
import SchemaCatalog.Yaml.Token.Layout

/-!
# SchemaCatalog.Yaml.Token.Scan

The tokens of a YAML text.

A text that cannot be scanned to its end still has tokens: those before the fault, as far as it
is settled that none of them is a key.
-/

namespace SchemaCatalog.Yaml

namespace Scan

/-! ## Between tokens -/

/-- Behind blanks, line breaks and comments: the place, whether it starts a line, and whether a
key may start there. A tab does not indent a line of a block. -/
def between? (inBlock inFlow : Bool) (indent : Int) (fresh allowed : Bool) (p : Place) :
    Option (Place × Bool × Bool) :=
  match _h : p.rest with
  | [] => some (p, fresh, allowed)
  | c :: _ =>
    if c = '\t' ∧ inBlock ∧ fresh ∧ (p.column : Int) < indent then
      match p.tail? with
      | none => none
      | some q =>
        if _hq : q.rest.length < p.rest.length then
          if atLineEnd q.rest then between? inBlock inFlow indent fresh allowed q else none
        else none
    else if isBlank c then between? inBlock inFlow indent fresh allowed (p.forward 1)
    else if isBreak c then
      between? inBlock inFlow indent true (allowed || !inFlow) p.newline
    else if c = '#' then between? inBlock inFlow indent fresh allowed (p.forward 1).lineEnd
    else some (p, fresh, allowed)
termination_by p.rest.length
decreasing_by
  · exact _hq
  · simp [Place.forward, _h]
  · exact Place.length_newline_lt p (by simp [_h])
  · simp only [Place.lineEnd, Place.past, Place.forward, _h, List.length_drop, List.length_cons]
    omega

def skipBetween : Scan Unit := do
  let s ← get
  let (p, fresh, allowed) ←
    ofOption (between? (!s.indents.isEmpty) s.inFlow s.indent s.fresh s.keyAllowed s.place)
  modify ({ · with place := p, fresh := fresh, keyAllowed := allowed })

/-- Behind the spaces, line breaks and comments that follow the mark of a key, of which there
has to be one, and whether a line has ended. -/
def pastKeyMark (passed ended : Bool) (p : Place) : Option (Place × Bool) :=
  match _h : p.rest with
  | [] => if passed then some (p, ended) else none
  | c :: _ =>
    if c = ' ' then pastKeyMark true ended (p.forward 1)
    else if isBreak c then pastKeyMark true true p.newline
    else if c = '#' then pastKeyMark passed ended (p.forward 1).lineEnd
    else if passed ∧ c ≠ '\t' then some (p, ended) else none
termination_by p.rest.length
decreasing_by
  · simp [Place.forward, _h]
  · exact Place.length_newline_lt p (by simp [_h])
  · simp only [Place.lineEnd, Place.past, Place.forward, _h, List.length_drop, List.length_cons]
    omega

/-! ## Documents -/

/-- The end of the text. -/
def streamEnd : Scan Unit := do
  if (← get).inFlow then fail
  else
    dropKey
    modify (·.unroll (-1))
    allowKey false
    push .streamEnd

/-- A line of three hyphens or points. -/
def documentMark (token : Token) : Scan Unit := do
  let s ← get
  if s.inFlow then fail
  else
    modify (·.unroll (-1))
    dropKey
    allowKey false
    moveTo (s.place.forward 3)
    push token

/-- Behind three points only a comment may stand. -/
def documentEnd : Scan Unit := do
  documentMark .documentEnd
  let q ← ofOption (← get).place.tail?
  moveTo q
  if !atLineEnd q.rest then fail

def directive : Scan Unit := do
  modify (·.unroll (-1))
  dropKey
  allowKey false
  let (token, q) ← ofOption (Property.directive? ((← get).place.forward 1))
  modify ({ · with place := q, fresh := q.column = 0 })
  push token

/-! ## Flow collections -/

def flowStart (bracket : Bracket) : Scan Unit := do
  saveKey
  modify (·.rollValue)
  let s ← get
  if 255 ≤ s.brackets.length then fail
  else
    set { s with brackets := bracket :: s.brackets, keys := none :: s.keys, keyAllowed := true }
    match bracket with
    | .curly => modify ({ · with bracketed := true })
    | .square => modify fun s => { s with pairs := none :: s.pairs }
    moveTo (← ofOption (s.place.forward 1).tail?)
    push (match bracket with
      | .curly => .flowMappingStart
      | .square => .flowSequenceStart)

/-- End a pair without brackets in a flow sequence. -/
def endPair (level : Nat) : Scan Unit := do
  let s ← get
  match s.pairs with
  | some l :: rest =>
    if l = level then
      set { s with bracketed := false, pairs := none :: rest }
      push .flowMappingEnd
  | _ => return

def flowEnd (bracket : Bracket) : Scan Unit := do
  let level := (← get).brackets.length
  if (← get).brackets.head? ≠ some bracket then fail
  else
    dropKey
    modify fun s =>
      { s with brackets := s.brackets.tail, keys := s.keys.tail, keyAllowed := false }
    if bracket = .square then
      endPair level
      modify fun s => { s with pairs := s.pairs.tail }
    moveTo (← ofOption ((← get).place.forward 1).tail?)
    modify fun s => if s.inFlow then { s with adjacentAt := some s.place.index } else s
    push (match bracket with
      | .curly => .flowMappingEnd
      | .square => .flowSequenceEnd)

def flowEntry : Scan Unit := do
  dropKey
  allowKey true
  endPair (← get).brackets.length
  moveTo (← ofOption ((← get).place.forward 1).tail?)
  push .flowEntry

/-! ## Block collections -/

/-- A hyphen before an entry of a block sequence. -/
def blockEntry : Scan Unit := do
  let s ← get
  if s.inFlow || !s.keyAllowed then fail
  else if s.place.column = 0 ∧ s.propertyColumn = some 0 ∧ -1 < s.indent then fail
  else
    modify (·.roll s.place.column none .blockSequenceStart)
    let p := s.place.forward 1
    let q ← ofOption p.tail?
    let tabbed := (p.rest.takeWhile isBlank).contains '\t'
    let hyphenNext : Bool := match q.rest with
      | '-' :: rest => atBlankOrEnd rest
      | _ => false
    if tabbed && hyphenNext then fail
    else
      moveTo q
      if q.rest.head?.any fun c => isBreak c || isFlow c then
        modify (·.rollValue)
      dropKey
      allowKey true
      push .blockEntry

/-- A question mark before a key. -/
def key : Scan Unit := do
  let s ← get
  if !s.inFlow && !s.keyAllowed then fail
  else
    if s.inFlow then modify ({ · with bracketed := true })
    else modify (·.roll s.place.column none .blockMappingStart)
    dropKey
    let (q, ended) ← ofOption (pastKeyMark false false (s.place.forward 1))
    modify ({ · with place := q, fresh := ended, keyAllowed := !s.inFlow })
    push .key

/-- Behind a colon. A tab alone does not separate it from a word or a hyphen. -/
def pastColon (p : Place) : Option Place :=
  match p.rest with
  | '\t' :: _ => do
    let q ← p.tail?
    let spaced := (p.rest.takeWhile isBlank).contains ' '
    if !spaced && q.rest.head?.any isWord then none else some q
  | _ => some p

/-- Announce a key that turned out to be one. -/
def announce (key : PossibleKey) (pair : Bool) (line : Nat) : Scan Unit := do
  modify (·.insertAt key.number .key)
  if pair then
    if key.line < line then fail
    else modify (·.insertAt key.number .flowMappingStart)
  modify fun s => s.roll key.column (some key.number) .blockMappingStart
  modify (·.rollValue)
  modify (·.setKey none)
  allowKey false

/-- A colon behind a key, or before a value whose key is missing. -/
def value : Scan Unit := do
  let s ← get
  let pair := !s.pairs.isEmpty && !s.bracketed
  if pair then
    set { s with pairs := some s.brackets.length :: s.pairs.tail }
  moveTo (← ofOption (pastColon (s.place.forward 1)))
  match s.keys.head?.join with
  | some key => announce key pair s.place.line
  | none =>
    if pair then push .flowMappingStart
    if !s.inFlow then
      if !s.keyAllowed then fail
      else modify (·.roll s.place.column none .blockMappingStart)
    modify (·.rollValue)
    allowKey (!s.inFlow)
  push .value

/-- A colon in a flow collection that no blank follows. -/
def adjacentValue : Scan Unit := do
  let s ← get
  let opens : Bool := match s.place.rest with
    | _ :: c :: _ => c = '[' || c = '\x7b'
    | _ => false
  if s.adjacentAt ≠ some s.place.index ∧ opens then fail else value

/-! ## Nodes -/

/-- An anchor or an alias, whose mark is the first character. -/
def anchor (token : String → Token) (isProperty : Bool) : Scan Unit := do
  saveKey
  allowKey false
  let p := (← get).place
  let (name, q) ← ofOption (Property.anchorName? (p.forward 1))
  moveTo q
  push (token name)
  if isProperty then modify ({ · with propertyColumn := some p.column })

def tag : Scan Unit := do
  saveKey
  allowKey false
  let s ← get
  let (token, q) ← ofOption (Property.scanTag? s.inFlow s.place)
  moveTo q
  push token
  modify ({ · with propertyColumn := some s.place.column })

def blockScalar (literal : Bool) : Scan Unit := do
  saveKey
  allowKey true
  modify (·.unrollValues)
  let s ← get
  let (text, q) ← ofOption (Block.scalar? literal s.indent (s.place.forward 1))
  modify ({ · with place := q, fresh := true })
  push (.scalar .block text)

def quotedScalar (single : Bool) : Scan Unit := do
  saveKey
  allowKey false
  let s ← get
  let (text, q) ← ofOption (Quoted.scalar? single s.inFlow s.indent s.place)
  moveTo q
  skipBetween
  modify fun s => { s with adjacentAt := some s.place.index }
  push (.scalar .quoted text)

def plainScalar : Scan Unit := do
  saveKey
  allowKey false
  modify (·.unrollValues)
  let s ← get
  let (text, fresh, q) ← ofOption (Plain.scalar? s.inFlow s.fresh (s.indent + 1) s.place)
  modify ({ · with place := q, fresh := fresh })
  if fresh then allowKey true
  push (.scalar .plain text)

/-! ## All tokens -/

/-- The token that starts with a character, given what stands behind it. -/
def dispatch (c : Char) (rest : List Char) : Scan Unit := do
  let s ← get
  let spaced := atBlankOrEnd rest
  if c = '[' then flowStart .square
  else if c = '\x7b' then flowStart .curly
  else if c = ']' then flowEnd .square
  else if c = '\x7d' then flowEnd .curly
  else if c = ',' then flowEntry
  else if c = '-' ∧ spaced then blockEntry
  else if c = '?' ∧ spaced then key
  else if c = ':' ∧ spaced then value
  else if c = ':' ∧ s.inFlow ∧ (endsOr isFlow rest ∨ s.adjacentAt = some s.place.index) then
    adjacentValue
  else if c = '*' then anchor .alias false
  else if c = '&' then anchor .anchor true
  else if c = '!' then tag
  else if c = '|' ∧ !s.inFlow then blockScalar true
  else if c = '>' ∧ !s.inFlow then blockScalar false
  else if c = '\'' then quotedScalar true
  else if c = '"' then quotedScalar false
  else if c = '%' ∨ c = '@' ∨ c = '\x60' then fail
  else plainScalar

/-- The next tokens, and whether there may be more. -/
def step : Scan Bool := do
  settle
  skipBetween
  dropStaleKey
  modify fun s => s.unroll s.place.column
  let s ← get
  match s.place.rest with
  | [] =>
    streamEnd
    return false
  | c :: rest =>
    if s.place.column = 0 ∧ c = '%' then directive
    else if s.place.column = 0 ∧ atDocumentStart s.place.rest then documentMark .documentStart
    else if s.place.column = 0 ∧ atDocumentEnd s.place.rest then documentEnd
    else if (s.place.column : Int) < s.indent then fail
    else dispatch c rest
    return true

/-- Steps until there are no more tokens, at most so many. -/
def steps : Nat → Scan Unit
  | 0 => return
  | n + 1 => do
    if ← step then steps n

end Scan

/-- The tokens of a text, ending with that of its end unless there is a fault. Every step takes
a character. -/
def tokens (text : List Char) : List Token :=
  match (Scan.steps (text.length + 2)).run (Scanner.start text) with
  | (.ok _, s) => s.tokens.toList
  | (.error _, s) => s.tokens.toList.take s.settled

end SchemaCatalog.Yaml
