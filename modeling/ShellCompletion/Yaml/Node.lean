import ShellCompletion.Yaml.Token

/-!
# YAML documents as written

The nodes of a document before their scalars are given a meaning. A node may have an
anchor, by which an alias elsewhere in the document refers to it.
-/

namespace ShellCompletion.Yaml

/-- What is said about a node beside its content; `α` is what anchors are. -/
structure Property (α : Type) where
  /-- The anchor. -/
  anchor : Option α := none
  /-- The complete tag. -/
  tag : Option String := none

/-- A node of a document. -/
inductive Node (α : Type) where
  /-- A reference to the node with an anchor. -/
  | alias (anchor : α)
  /-- A text. -/
  | scalar (property : Property α) (style : ScalarStyle) (text : String)
  /-- A list. -/
  | sequence (property : Property α) (items : List (Node α))
  /-- A map with its entries as written. -/
  | mapping (property : Property α) (entries : List (Node α × Node α))
deriving Inhabited

/-- A node without content. -/
def Node.empty {α : Type} (property : Property α) : Node α :=
  .scalar property .plain ""

end ShellCompletion.Yaml
