import SchemaCatalog.Yaml.Node
import SchemaCatalog.Yaml.Token.Scan

/-!
# SchemaCatalog.Yaml.Node.Reader

The tree of a YAML text with one document.

The grammar runs over the tokens. What stands behind the document must not be a second one; what
is no YAML at all behind it does no harm.
-/

namespace SchemaCatalog.Yaml

namespace Reader

structure State where
  tokens : List Token
  /-- What the tag handles of the document stand for. -/
  handles : List (String × String)
  /-- The nodes with a name, the latest first; `none` while a node is not complete. -/
  anchors : List (String × Option Node)

abbrev Read := StateT State Option

def fail {α : Type} : Read α := fun _ => none

/-- The next token, which has to be there. -/
def peek : Read Token := do
  match (← get).tokens with
  | token :: _ => return token
  | [] => fail

/-- Drop the next token. -/
def drop : Read Unit := modify fun s => { s with tokens := s.tokens.tail }

/-- Whether the next token is one of these. -/
def sees (tokens : List Token) : Read Bool :=
  return tokens.contains (← peek)

/-! ## Tags, anchors and aliases -/

/-- The tags that everyone knows. -/
def coreTags : String := "tag:yaml.org,2002:"

/-- The full name of a tag. A handle between two exclamation marks has to be declared, apart
from the one for the tags that everyone knows. -/
def fullTag? (handles : List (String × String)) (handle suffix : String) : Option String :=
  if handle = "" ∧ suffix ≠ "!" then some suffix
  else
    match handles.lookup handle with
    | some expansion => some (expansion ++ suffix)
    | none =>
      if handle = "!!" then some (coreTags ++ suffix)
      else if Property.isClosed handle.toList then none
      else some (handle ++ suffix)

def tagOf (handle suffix : String) : Read String := do
  match fullTag? (← get).handles handle suffix with
  | some tag => return tag
  | none => fail

def setAnchor (name : String) (node : Option Node) : Read Unit :=
  modify fun s => { s with anchors := (name, node) :: s.anchors }

/-- What an alias stands for; its node has to be complete. -/
def aliased (name : String) : Read Node := do
  match (← get).anchors.lookup name with
  | some (some node) => return node
  | _ => fail

/-- A tag and an anchor, in either order. -/
def properties : Read (Option String × Option String) := do
  match ← peek with
  | .anchor name =>
    drop
    setAnchor name none
    match ← peek with
    | .tag handle suffix =>
      drop
      return (some (← tagOf handle suffix), some name)
    | _ => return (none, some name)
  | .tag handle suffix =>
    drop
    let tag ← tagOf handle suffix
    match ← peek with
    | .anchor name =>
      drop
      setAnchor name none
      return (some tag, some name)
    | _ => return (some tag, none)
  | _ => return (none, none)

/-! ## Nodes -/

/-- Where the value of a key, or the key itself, may be missing. -/
def blockStops : List Token := [.key, .value, .blockEnd]

mutual

/-- A node, in so many steps. Block collections are read only with `block`, and sequences that
are not indented only with `indentless`. -/
def node : Nat → (block indentless : Bool) → Read Node
  | 0, _, _ => fail
  | n + 1, block, indentless => do
    if let .alias name ← peek then
      drop
      aliased name
    else
      let (tag, anchor) ← properties
      let result ← match ← peek with
        | .scalar style text => do
          drop
          pure (Node.scalar tag style text)
        | .flowSequenceStart => do
          drop
          Node.sequence tag <$> flowItems n true
        | .flowMappingStart => do
          drop
          Node.mapping tag <$> flowPairs n true
        | token =>
          if token = .blockEntry ∧ indentless then
            Node.sequence tag <$> indentlessItems n
          else if token = .blockSequenceStart ∧ block then do
            drop
            Node.sequence tag <$> blockItems n
          else if token = .blockMappingStart ∧ block then do
            drop
            Node.mapping tag <$> blockPairs n
          else if tag.isSome ∨ anchor.isSome then pure (Node.empty tag)
          else fail
      if let some name := anchor then
        setAnchor name (some result)
      return result

/-- A node, unless the next token is one of these. -/
def nodeUnless : Nat → (stops : List Token) → (block indentless : Bool) → Read Node
  | 0, _, _, _ => fail
  | n + 1, stops, block, indentless => do
    if ← sees stops then return .missing else node n block indentless

/-- The entries of a block sequence. -/
def blockItems : Nat → Read (List Node)
  | 0 => fail
  | n + 1 => do
    match ← peek with
    | .blockEnd => do
      drop
      return []
    | .blockEntry => do
      drop
      let item ← nodeUnless n [.blockEntry, .blockEnd] true false
      return item :: (← blockItems n)
    | _ => fail

/-- The entries of a sequence that is not indented. -/
def indentlessItems : Nat → Read (List Node)
  | 0 => fail
  | n + 1 => do
    if (← peek) = .blockEntry then
      drop
      let item ← nodeUnless n (.blockEntry :: blockStops) true false
      return item :: (← indentlessItems n)
    else return []

/-- The entries of a block mapping. -/
def blockPairs : Nat → Read (List (Node × Node))
  | 0 => fail
  | n + 1 => do
    match ← peek with
    | .blockEnd => do
      drop
      return []
    | .key => do
      drop
      let key ← nodeUnless n blockStops true true
      let value ← valueAfter n blockStops true
      return (key, value) :: (← blockPairs n)
    | .value => do
      let value ← valueAfter n blockStops true
      return (.missing, value) :: (← blockPairs n)
    | _ => fail

/-- The value behind a key, if one is announced. -/
def valueAfter : Nat → (stops : List Token) → (block : Bool) → Read Node
  | 0, _, _ => fail
  | n + 1, stops, block => do
    if (← peek) = .value then
      drop
      nodeUnless n stops block block
    else return .missing

/-- The entries of a flow sequence; a pair among them is a mapping of its own. -/
def flowItems : Nat → (first : Bool) → Read (List Node)
  | 0, _ => fail
  | n + 1, first => do
    if (← peek) = .flowSequenceEnd then
      drop
      return []
    else
      if !first then
        if (← peek) = .flowEntry then drop else fail
      let stops := [Token.flowEntry, .flowSequenceEnd]
      match ← peek with
      | .flowSequenceEnd => do
        drop
        return []
      | .key => do
        drop
        let key ← nodeUnless n (.value :: stops) false false
        let value ← valueAfter n stops false
        return .mapping none [(key, value)] :: (← flowItems n false)
      | _ =>
        let item ← node n false false
        return item :: (← flowItems n false)

/-- The entries of a flow mapping. -/
def flowPairs : Nat → (first : Bool) → Read (List (Node × Node))
  | 0, _ => fail
  | n + 1, first => do
    if (← peek) = .flowMappingEnd then
      drop
      return []
    else
      if !first then
        if (← peek) = .flowEntry then drop else fail
      let stops := [Token.flowEntry, .flowMappingEnd]
      match ← peek with
      | .flowMappingEnd => do
        drop
        return []
      | .key => do
        drop
        let key ← nodeUnless n (.value :: stops) false false
        let value ← valueAfter n stops false
        return (key, value) :: (← flowPairs n false)
      | .value => do
        let value ← valueAfter n stops false
        return (.missing, value) :: (← flowPairs n false)
      | _ =>
        let key ← node n false false
        return (key, .missing) :: (← flowPairs n false)

end

/-! ## Documents -/

/-- The directives before a document; none may be given twice. -/
def directives : List Token → (versioned : Bool) → List (String × String) →
    Option (List Token × List (String × String))
  | .version :: rest, versioned, handles =>
    if versioned then none else directives rest true handles
  | .handle name expansion :: rest, versioned, handles =>
    if (handles.lookup name).isSome then none
    else directives rest versioned ((name, expansion) :: handles)
  | .reservedDirective :: rest, versioned, handles => directives rest versioned handles
  | rest, _, handles => some (rest, handles)

/-- Whether a token stands between documents. -/
def isBoundary : Token → Bool
  | .version | .handle _ _ | .reservedDirective | .documentStart | .documentEnd | .streamEnd =>
    true
  | _ => false

/-- Whether a token can start a node. -/
def startsNode : Token → Bool
  | .alias _ | .anchor _ | .tag _ _ | .scalar _ _ | .flowSequenceStart | .flowMappingStart
  | .blockSequenceStart | .blockMappingStart => true
  | _ => false

/-- Whether a document follows, given the tokens behind its start. -/
def hasContent : List Token → Bool
  | [] => false
  | token :: _ => isBoundary token || startsNode token

/-- Whether the tokens behind a document leave it the only one. Behind three points a further
document needs no start of its own. -/
def isLast : List Token → Bool
  | [] => false
  | .version :: _ | .handle _ _ :: _ => false
  | .documentEnd :: rest =>
    match rest.dropWhile (· = .documentEnd) with
    | [] => true
    | .streamEnd :: _ => true
    | token :: more =>
      if isBoundary token then
        match directives (token :: more) false [] with
        | some (.documentStart :: rest, _) => !hasContent rest
        | _ => true
      else !startsNode token
  | .documentStart :: rest => !hasContent rest
  | _ => true

/-- The root of the document behind its start, and whether it is the only one. -/
def content? (handles : List (String × String)) (tokens : List Token) : Option Node :=
  match tokens with
  | [] => none
  | token :: _ =>
    if isBoundary token then if isLast tokens then some .missing else none
    else
      match node (4 * tokens.length + 4) true false ⟨tokens, handles, []⟩ with
      | some (root, s) => if isLast s.tokens then some root else none
      | none => none

/-- The root of the only document of some tokens. -/
def document? (tokens : List Token) : Option Node :=
  match tokens.dropWhile (· = .documentEnd) with
  | [] | .streamEnd :: _ => none
  | token :: rest =>
    if isBoundary token then
      match directives (token :: rest) false [] with
      | some (.documentStart :: rest, handles) => content? handles rest
      | _ => none
    else content? [] (token :: rest)

end Reader

/-- The root of the only document of a text. -/
def read? (text : String) : Option Node := Reader.document? (tokens text.toList)

end SchemaCatalog.Yaml
