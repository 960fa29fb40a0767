import ShellCompletion.Document.Export
import ShellCompletion.Document.Import
import ShellCompletion.Json.Reader
import ShellCompletion.Validation
import ShellCompletion.Yaml.Printer
import ShellCompletion.Yaml.Resolve

/-!
# Specifications as text

A specification is read from JSON or YAML text and written as either.
-/

namespace ShellCompletion

/-- The file name at the end of a path; a path that ends in a parent directory has
none. -/
def fileName? (path : String) : Option String :=
  match ((Text.split (· == '/') path).filter fun part => part != "" && part != ".").getLast? with
  | some name => if name == ".." then none else some name
  | none => none

/-- What follows the last point of a file name, unless the point begins the name. -/
def fileExtension? (path : String) : Option String := do
  let name ← fileName? path
  match name.toList.reverse.span (· != '.') with
  | (_, []) => none
  | (_, [_]) => none
  | (extension, _) => some (String.ofList extension.reverse)

/-- The format that the name of a file suggests. -/
def Format.ofPath? (path : String) : Option Format := do
  let extension := Text.lowerAscii (← fileExtension? path)
  if extension == "json" then some .json
  else if extension == "yaml" || extension == "yml" then some .yaml
  else none

namespace CommandTree

/-- The tree that a JSON text describes. Whether the value is a specification is decided
before what follows the value is looked at. -/
def ofJson (text : String) : Except Error CommandTree :=
  match Json.read? text with
  | none => .error (.config (.malformed .json))
  | some (data, rest) =>
    match documentsOfData data with
    | .error _ => .error (.config (.wrongShape .json))
    | .ok documents =>
      if (Json.skipSpaces rest).isEmpty then ofDocuments documents
      else .error (.config (.malformed .json))

/-- The command documents of a YAML document; one without content has none. -/
def documentsOfYaml (document : Option Yaml.Document) : Except Error (List CommandDocument) :=
  match document.bind Yaml.Document.toData? with
  | none => .error (.config (.malformed .yaml))
  | some .null => .ok []
  | some data =>
    match documentsOfData data with
    | .error _ => .error (.config (.wrongShape .yaml))
    | .ok documents => .ok documents

/-- The tree that a YAML text describes. Each of its documents is looked at before what
follows it is. -/
def ofYaml (text : String) : Except Error CommandTree := do
  let documents ← (Yaml.Document.ofText text).mapM documentsOfYaml
  ofDocuments documents.flatten

/-- The tree that a text in a format describes. -/
def ofText (format : Format) (text : String) : Except Error CommandTree :=
  match format with
  | .json => ofJson text
  | .yaml => ofYaml text

/-- The tree that a text in a format describes, after the checks of its structure. -/
def parse (format : Format) (text : String) : Logged CommandTree := do
  let tree ← Logged.ofExcept (ofText format text)
  tree.checkStructure true
  pure tree

/-- The tree as JSON text. -/
def toJsonText (tree : CommandTree) : String :=
  (Json.list (tree.toDocuments.map (·.toJson))).pretty ++ "\n"

/-- The tree as YAML text, a document for each command. -/
def toYamlText (tree : CommandTree) : String :=
  String.join (tree.toDocuments.map fun document => "---\n" ++ Yaml.write document.toJson)

/-- The tree as text in a format. -/
def render (tree : CommandTree) (format : Format) : String :=
  match format with
  | .json => tree.toJsonText
  | .yaml => tree.toYamlText

end CommandTree
end ShellCompletion
