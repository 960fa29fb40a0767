import ShellCompletion.Config
import ShellCompletion.Yaml.Resolve

/-!
# Configuration files

A configuration file is a YAML text of at most one document. Here the fields decide
how scalars are read: a switch takes a plain truth value and an included text any
scalar as it is written. Values under unknown names are not looked at.
-/

namespace ShellCompletion.Yaml.Document

/-- The data of a switch. -/
def switchData (document : Document) (node : Node Nat) : Reading Data := do
  match ← document.follow node with
  | .scalar property style text =>
    if style != .plain && !(style == .literal && property.tag == some (ownTag "bool")) then
      failure
    match truthValue? text with
    | some value => pure (.bool value)
    | none => failure
  | _ => failure

/-- The data of a text. -/
def textData (document : Document) (node : Node Nat) : Reading Data := do
  match ← document.follow node with
  | .scalar _ _ text => pure (.text text)
  | _ => failure

/-- The data of a list of texts, which may be left empty. -/
def textsData (document : Document) (node : Node Nat) : Reading Data := do
  match ← document.follow node with
  | .sequence _ items => return .list (← items.mapM document.textData)
  | .scalar _ .plain "" => pure (.list [])
  | _ => failure

/-- The data of a field of a configuration. -/
def configField (document : Document) (name : String) (node : Node Nat) : Reading Data :=
  if (Config.switch? name).isSome then document.switchData node
  else if name == "includes" then document.textsData node
  else pure .null

/-- The data of a configuration. -/
def configData (document : Document) : Reading Data := do
  match ← document.follow document.root with
  | .mapping _ entries =>
    let entries ← entries.mapM fun (key, value) => do
      match ← document.textData key with
      | .text name => return (Data.text name, ← document.configField name value)
      | _ => failure
    return .map entries
  | .scalar _ .plain "" => return .map []
  | _ => failure

end ShellCompletion.Yaml.Document

namespace ShellCompletion.Config

/-- The configuration that a YAML text describes; a text without content describes the
default one. -/
def ofYaml? (text : String) : Option Config :=
  match Yaml.Document.ofText text with
  | [] => some {}
  | [some document] => do
    let (data, _) ← document.configData.run 0
    (Config.shape.read data).toOption
  | _ => none

end ShellCompletion.Config
