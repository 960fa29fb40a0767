/-!
# The parts of a YAML text

A YAML text is a series of tokens. Indentation is made explicit: a block collection
starts with a token of its own and ends with `blockEnd`, and the key of a pair comes
after a `key` token even where the text has no mark for it.
-/

namespace ShellCompletion.Yaml

/-- How a scalar is written. -/
inductive ScalarStyle where
  /-- Without quotes. -/
  | plain
  /-- Between single or double quotes. -/
  | quoted
  /-- As lines that are kept. -/
  | literal
  /-- As lines that are folded. -/
  | folded
deriving DecidableEq

/-- A part of a YAML text. -/
inductive Token where
  /-- The version of the format that the text claims to have. -/
  | version (major minor : Nat)
  /-- What a tag handle stands for. -/
  | tagHandle (handle meaning : String)
  /-- The mark of the start of a document. -/
  | documentStart
  /-- The mark of the end of a document. -/
  | documentEnd
  /-- The end of the text. -/
  | streamEnd
  /-- The start of an indented list. -/
  | blockSequenceStart
  /-- The start of an indented map. -/
  | blockMappingStart
  /-- The end of an indented collection. -/
  | blockEnd
  /-- An opening square bracket. -/
  | flowSequenceStart
  /-- A closing square bracket. -/
  | flowSequenceEnd
  /-- An opening brace. -/
  | flowMappingStart
  /-- A closing brace. -/
  | flowMappingEnd
  /-- The mark of an item. -/
  | blockEntry
  /-- A comma. -/
  | flowEntry
  /-- The mark of a key, written or not. -/
  | key
  /-- The mark of a value. -/
  | value
  /-- A reference to an anchored node. -/
  | alias (name : String)
  /-- The anchor of a node. -/
  | anchor (name : String)
  /-- The tag of a node. -/
  | tag (handle suffix : String)
  /-- A scalar. -/
  | scalar (text : String) (style : ScalarStyle)
deriving DecidableEq

end ShellCompletion.Yaml
