import ShellCompletion.Yaml.Parser
import ShellCompletion.Yaml.Schema

/-!
# The data of YAML documents

Anchors are numbered in the order in which they come up, and an alias stands for what
its name was last given to before it. The number of an anchor is how many names there
are, so a name that is given again may share its number with the next new name, and
the node that came last with a number is the one that its aliases stand for.

A tag of the format's own kind says how a scalar is read. A local tag makes no sense
in data. To be read, collections may nest 128 levels deep, and aliases may be followed
a hundred times as often as the document has parts.
-/

namespace ShellCompletion.Yaml

/-- The names of anchors with their numbers. -/
abbrev AnchorNames := List (String × Nat)

/-- Numbers the anchor of a property. -/
def Property.number (property : Property String) (names : AnchorNames) :
    Property Nat × AnchorNames :=
  match property.anchor with
  | none => (⟨none, property.tag⟩, names)
  | some name =>
    let number := names.length
    (⟨some number, property.tag⟩, (name, number) :: names.filter (·.1 != name))

mutual

/-- Numbers the anchors of a node. An alias of an unknown name is a fault. -/
def Node.number : Node String → AnchorNames → Option (Node Nat × AnchorNames)
  | .alias name, names => (names.lookup name).map fun number => (.alias number, names)
  | .scalar property style text, names =>
    let (property, names) := property.number names
    some (.scalar property style text, names)
  | .sequence property items, names =>
    let (property, names) := property.number names
    (Node.numberItems items names).map fun (items, names) => (.sequence property items, names)
  | .mapping property entries, names =>
    let (property, names) := property.number names
    (Node.numberEntries entries names).map fun (entries, names) =>
      (.mapping property entries, names)

/-- Numbers the anchors of several nodes in order. -/
def Node.numberItems :
    List (Node String) → AnchorNames → Option (List (Node Nat) × AnchorNames)
  | [], names => some ([], names)
  | item :: rest, names => do
    let (item, names) ← item.number names
    let (rest, names) ← Node.numberItems rest names
    return (item :: rest, names)

/-- Numbers the anchors of the entries of a map in order. -/
def Node.numberEntries : List (Node String × Node String) → AnchorNames →
    Option (List (Node Nat × Node Nat) × AnchorNames)
  | [], names => some ([], names)
  | (key, value) :: rest, names => do
    let (key, names) ← key.number names
    let (value, names) ← value.number names
    let (rest, names) ← Node.numberEntries rest names
    return ((key, value) :: rest, names)

end

/-- The anchor of a node with the node, if it has one. -/
def Node.anchored (property : Property Nat) (node : Node Nat) : List (Nat × Node Nat) :=
  match property.anchor with
  | some number => [(number, node)]
  | none => []

mutual

/-- The nodes with anchors in a node, in the order in which they start. -/
def Node.anchors : Node Nat → List (Nat × Node Nat)
  | .alias _ => []
  | .scalar property style text => Node.anchored property (.scalar property style text)
  | .sequence property items =>
    Node.anchored property (.sequence property items) ++ Node.anchorsOfItems items
  | .mapping property entries =>
    Node.anchored property (.mapping property entries) ++ Node.anchorsOfEntries entries

/-- The nodes with anchors in several nodes. -/
def Node.anchorsOfItems : List (Node Nat) → List (Nat × Node Nat)
  | [] => []
  | item :: rest => item.anchors ++ Node.anchorsOfItems rest

/-- The nodes with anchors in the entries of a map. -/
def Node.anchorsOfEntries : List (Node Nat × Node Nat) → List (Nat × Node Nat)
  | [] => []
  | (key, value) :: rest => key.anchors ++ value.anchors ++ Node.anchorsOfEntries rest

end

mutual

/-- The number of parts of a node: one for a scalar or an alias, two for the ends of a
collection. -/
def Node.size : Node Nat → Nat
  | .alias _ => 1
  | .scalar .. => 1
  | .sequence _ items => 2 + Node.sizeOfItems items
  | .mapping _ entries => 2 + Node.sizeOfEntries entries

/-- The number of parts of several nodes. -/
def Node.sizeOfItems : List (Node Nat) → Nat
  | [] => 0
  | item :: rest => item.size + Node.sizeOfItems rest

/-- The number of parts of the entries of a map. -/
def Node.sizeOfEntries : List (Node Nat × Node Nat) → Nat
  | [] => 0
  | (key, value) :: rest => key.size + value.size + Node.sizeOfEntries rest

end

/-- A document whose anchors are numbered. -/
structure Document where
  /-- The top node. -/
  root : Node Nat
  /-- The nodes with anchors, those that came last first. -/
  anchors : List (Nat × Node Nat)
  /-- The number of parts. -/
  size : Nat

/-- The document with a top node. -/
def Document.ofNode? (root : Node String) : Option Document := do
  let (root, _) ← root.number []
  return ⟨root, root.anchors.reverse, root.size⟩

/-- The documents of a text; the last of them is absent if a fault comes up. -/
def Document.ofText (text : String) : List (Option Document) :=
  (documentsOf text).map (·.bind Document.ofNode?)

/-- A reading of a document, which counts how often an alias was followed. -/
abbrev Reading (α : Type) := StateT Nat Option α

/-- The node that a node stands for: what an alias refers to, and any other node
itself. -/
def Document.follow (document : Document) : Node Nat → Reading (Node Nat)
  | .alias number => do
    let count ← get
    if 100 * document.size ≤ count then failure
    set (count + 1)
    match document.anchors.lookup number with
    | some node => pure node
    | none => failure
  | node => pure node

/-- The tag of the format's own kind with a name. -/
def ownTag (name : String) : String :=
  "tag:yaml.org,2002:" ++ name

/-- Whether a tag is a local one. -/
def isLocalTag (tag : Option String) : Bool :=
  tag.any (·.startsWith "!")

/-- What a scalar with a tag of the format's own kind means. -/
def taggedData? (tag text : String) : Option Data :=
  if tag == ownTag "bool" then (truthValue? text).map .bool
  else if tag == ownTag "int" then (integer? text.toList).bind intData?
  else if tag == ownTag "float" then (float? text.toList).map (.number ∘ .float)
  else if tag == ownTag "null" then if nullWords.contains text then some .null else none
  else some (.text text)

/-- What a scalar means. -/
def scalarData? (tag : Option String) (style : ScalarStyle) (text : String) : Option Data :=
  match tag with
  | some tag => taggedData? tag text
  | none => if style == .plain then plainData? text else some (.text text)

mutual

/-- Whether two pieces of data are the same key of a map; maps are compared in any
order of their entries. -/
def sameKey : Data → Data → Bool
  | .null, .null => true
  | .bool a, .bool b => a == b
  | .number (.float a), .number (.float b) => a == b || (a.isNaN && b.isNaN)
  | .number a, .number b => a.same b
  | .text a, .text b => a == b
  | .list a, .list b => sameKeyItems a b
  | .map a, .map b => a.length == b.length && sameKeyEntries a b
  | _, _ => false

/-- Whether two lists hold the same keys in the same order. -/
def sameKeyItems : List Data → List Data → Bool
  | [], [] => true
  | a :: as, b :: bs => sameKey a b && sameKeyItems as bs
  | _, _ => false

/-- Whether every entry of the first map is in the second. -/
def sameKeyEntries : List (Data × Data) → List (Data × Data) → Bool
  | [], _ => true
  | (key, value) :: rest, others =>
    others.any (fun other => sameKey key other.1 && sameKey value other.2) &&
      sameKeyEntries rest others

end

/-- Whether a key comes twice in the entries of a map. -/
def hasRepeatedKey : List (Data × Data) → Bool
  | [] => false
  | (key, _) :: rest => rest.any (sameKey key ·.1) || hasRepeatedKey rest

/-- The data of a node in which collections may nest `depth` more levels. -/
def Document.data (document : Document) (depth : Nat) (node : Node Nat) : Reading Data := do
  match ← document.follow node, depth with
  | .alias _, _ => failure
  | .scalar property style text, _ =>
    if isLocalTag property.tag then failure
    match scalarData? property.tag style text with
    | some data => pure data
    | none => failure
  | .sequence property items, depth + 1 =>
    if isLocalTag property.tag then failure
    return .list (← items.mapM (document.data depth))
  | .mapping property entries, depth + 1 =>
    if isLocalTag property.tag then failure
    let entries ← entries.mapM fun (key, value) => do
      return (← document.data depth key, ← document.data depth value)
    if hasRepeatedKey entries then failure
    return .map entries
  | _, 0 => failure

/-- Whether a document holds no more than the absent value, under a local tag or without
a tag. -/
def Document.isNull (document : Document) : Bool :=
  match document.root with
  | .scalar property .plain text =>
    (property.tag.isNone || isLocalTag property.tag) &&
      (text.isEmpty || nullWords.contains text)
  | _ => false

/-- The data of a document; none if a part of it has no meaning. -/
def Document.toData? (document : Document) : Option Data :=
  if document.isNull then some .null
  else ((document.data 128 document.root).run 0).map (·.1)

end ShellCompletion.Yaml
