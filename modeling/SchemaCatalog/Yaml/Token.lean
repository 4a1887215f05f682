/-!
# SchemaCatalog.Yaml.Token

The tokens of a YAML text.

Indentation has become explicit: a block collection has a token at its start and one at its end,
and every key and every value of a mapping is announced.
-/

namespace SchemaCatalog.Yaml

/-- How a scalar is written. -/
inductive Style where
  | plain
  | quoted
  /-- Literal or folded lines. -/
  | block
deriving DecidableEq, Repr

inductive Token where
  | version
  /-- What a tag handle stands for. -/
  | handle (name expansion : String)
  | reservedDirective
  | documentStart
  | documentEnd
  | streamEnd
  | blockSequenceStart
  | blockMappingStart
  | blockEnd
  | flowSequenceStart
  | flowSequenceEnd
  | flowMappingStart
  | flowMappingEnd
  | flowEntry
  | blockEntry
  | key
  | value
  | alias (name : String)
  | anchor (name : String)
  | tag (handle suffix : String)
  | scalar (style : Style) (text : String)
deriving DecidableEq, Repr

end SchemaCatalog.Yaml
