import SchemaCatalog.Yaml.Token

/-!
# SchemaCatalog.Yaml.Node

YAML documents as trees.

Aliases are already replaced by what they stand for. The entries of a mapping are kept as they
are written; which of them count, once the mappings behind merge keys are added, is said by
`Node.entries?`.
-/

namespace SchemaCatalog.Yaml

inductive Node where
  | scalar (tag : Option String) (style : Style) (text : String)
  | sequence (tag : Option String) (items : List Node)
  | mapping (tag : Option String) (pairs : List (Node × Node))
deriving Repr, Inhabited

namespace Node

/-- A node that is not written. -/
def missing : Node := .scalar none .plain "~"

/-- A node of which only a tag or an anchor is written. -/
def empty (tag : Option String) : Node := .scalar tag .plain ""

/-- Whether a scalar without a tag means that there is nothing. -/
def isNull (style : Style) (text : String) : Bool :=
  style = .plain && ["", "~", "null"].contains text.toLower

mutual

/-- Whether two nodes are the same key: the same tags, texts and parts, however written. -/
def same : Node → Node → Bool
  | .scalar tag _ text, .scalar tag' _ text' => tag = tag' && text = text'
  | .sequence tag items, .sequence tag' items' => tag = tag' && sameItems items items'
  | .mapping tag pairs, .mapping tag' pairs' => tag = tag' && samePairs pairs pairs'
  | _, _ => false

def sameItems : List Node → List Node → Bool
  | [], [] => true
  | a :: as, b :: bs => same a b && sameItems as bs
  | _, _ => false

def samePairs : List (Node × Node) → List (Node × Node) → Bool
  | [], [] => true
  | (k, v) :: as, (k', v') :: bs => same k k' && same v v' && samePairs as bs
  | _, _ => false

end

/-- The key under which a mapping takes over the entries of others. -/
def isMergeKey : Node → Bool
  | .scalar none .plain text => text = "<<"
  | _ => false

/-- Whether no two keys are the same. -/
def distinct : List Node → Bool
  | [] => true
  | key :: rest => !rest.any key.same && distinct rest

mutual

/-- The entries that a node behind a merge key contributes. -/
def contributed? : Node → Option (List (Node × Node))
  | .scalar _ style text => if isNull style text then some [] else none
  | .sequence _ items => contributedByItems? items
  | .mapping _ pairs =>
    match contributedByPairs? pairs with
    | some merged => some (pairs.filter (!·.1.isMergeKey) ++ merged)
    | none => none

def contributedByItems? : List Node → Option (List (Node × Node))
  | [] => some []
  | item :: rest =>
    match contributed? item, contributedByItems? rest with
    | some first, some others => some (first ++ others)
    | _, _ => none

/-- The entries behind all merge keys of a mapping. -/
def contributedByPairs? : List (Node × Node) → Option (List (Node × Node))
  | [] => some []
  | (key, value) :: rest =>
    match contributedByPairs? rest with
    | none => none
    | some others =>
      if key.isMergeKey then
        match contributed? value with
        | some first => some (first ++ others)
        | none => none
      else some others

end

/-- Add the entries whose keys are not there yet. -/
def addNew (pairs : List (Node × Node)) : List (Node × Node) → List (Node × Node)
  | [] => pairs
  | pair :: rest =>
    if pairs.any (·.1.same pair.1) then addNew pairs rest else addNew (pairs ++ [pair]) rest

/-- The entries of a mapping that count: its own, whose keys have to differ, and of those behind
merge keys the ones whose keys are new. -/
def entries? (pairs : List (Node × Node)) : Option (List (Node × Node)) :=
  let own := pairs.filter (!·.1.isMergeKey)
  if distinct (own.map (·.1)) then (contributedByPairs? pairs).map (addNew own) else none

mutual

/-- Whether all mappings of a tree have keys that differ, and merge keys only before mappings. -/
def isValid : Node → Bool
  | .scalar .. => true
  | .sequence _ items => areValid items
  | .mapping _ pairs => (entries? pairs).isSome && arePairsValid pairs

def areValid : List Node → Bool
  | [] => true
  | item :: rest => isValid item && areValid rest

def arePairsValid : List (Node × Node) → Bool
  | [] => true
  | (key, value) :: rest => isValid key && isValid value && arePairsValid rest

end

end Node

end SchemaCatalog.Yaml
