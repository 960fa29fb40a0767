import ShellCompletion.CommandTree.Basic
import ShellCompletion.Document.Basic

/-!
# From documents to a tree

Documents may come in any order: those with shorter paths are taken first, so that an
enclosing command always exists before its subcommands.
-/

namespace ShellCompletion

/-- The completion of an argument. -/
def readCompletion (owner : String) : Option (List Json) → Except Error Completion
  | none => .ok .none
  | some items =>
    match Completion.ofList items with
    | .ok completion => .ok completion
    | .error fault => .error (.unknownCompletion owner fault)

/-- The condition of an argument. -/
def readCondition (owner : String) : Option String → Except Error (Option Condition)
  | none => .ok none
  | some text =>
    match Condition.parse text with
    | .ok condition => .ok (some condition)
    | .error fault => .error (.invalidCondition owner fault)

/-- The option that a document describes. -/
def OptionDocument.toOption (document : OptionDocument) : Except Error CommandOption := do
  let owner := "|".intercalate document.optionStrings
  let completion ← readCompletion owner document.complete
  let condition ← readCondition owner document.when
  OptionDraft.build {
    strings := document.optionStrings
    metavar := document.metavar
    help := document.help
    arity := document.takesArgs
    repeatable := document.multipleOption
    group := document.group
    when := condition
    completion := some completion }

/-- The positional argument that a document describes. -/
def PositionalDocument.toPositional (document : PositionalDocument) :
    Except Error Positional := do
  let completion ← readCompletion document.metavar document.complete
  let condition ← readCondition document.metavar document.when
  pure {
    metavar := document.metavar
    help := document.help
    repeatable := document.repeatable
    completion := completion
    when := condition }

namespace CommandDocument

/-- The names from the program down to the command. -/
def path (document : CommandDocument) : List String :=
  Text.words document.prog

/-- The positional arguments in the order of their numbers. -/
def orderedPositionals (document : CommandDocument) : List PositionalDocument :=
  document.positionals.mergeSort fun a b => a.number ≤ b.number

/-- Adds one option to a command. -/
def addOption (id : Nat) (tree : CommandTree) (option : OptionDocument) :
    Except Error CommandTree := do
  tree.addOption id (← option.toOption)

/-- Adds one positional argument to a command; its number must be that of its place. -/
def addPositional (document : CommandDocument) (id : Nat) (tree : CommandTree)
    (positional : PositionalDocument) : Except Error CommandTree := do
  let expected := tree.positionalNumber id (tree.command id).positionals.length
  if positional.number != expected then
    throw (.validation
      (.wrongNumber document.prog positional.metavar positional.number expected))
  pure (tree.addPositional id (← positional.toPositional))

/-- Makes a new command what the document describes. -/
def applyTo (document : CommandDocument) (id : Nat) (tree : CommandTree) :
    Except Error CommandTree := do
  let tree := tree.modify id fun command => {
    command with
    aliases := document.aliases
    help := document.help
    abbreviateCommands := document.abbreviateCommands
    abbreviateOptions := document.abbreviateOptions
    inheritOptions := document.inheritOptions }
  let tree ← document.options.foldlM (addOption id) tree
  let tree ← document.orderedPositionals.foldlM (document.addPositional id) tree
  match document.subcommands with
  | none => pure tree
  | some slot => tree.addSlot id ⟨slot.metavar, slot.help⟩

/-- Adds the subcommand that a document describes. -/
def addTo (tree : CommandTree) (document : CommandDocument) : Except Error CommandTree := do
  match document.path.reverse with
  | name :: enclosing =>
    if enclosing.isEmpty then throw (.validation (.secondProgram document.prog))
    match tree.findByPath? enclosing.reverse with
    | none => throw (.validation (.missingParent document.prog))
    | some parent =>
      let (tree, id) ← tree.addSubcommand parent name document.help
      document.applyTo id tree
  | [] => throw (.validation (.secondProgram document.prog))

end CommandDocument

namespace CommandTree

/-- The tree that documents describe. -/
def ofDocuments (documents : List CommandDocument) : Except Error CommandTree := do
  match documents.mergeSort fun a b => a.path.length ≤ b.path.length with
  | [] => throw (.validation .noCommands)
  | program :: rest =>
    match program.path with
    | [name] =>
      let tree ← program.applyTo 0 (new name)
      rest.foldlM CommandDocument.addTo tree
    | _ => throw (.validation (.badProgramName program.prog))

end CommandTree
end ShellCompletion
