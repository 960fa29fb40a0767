import ShellCompletion.CommandTree.Basic
import ShellCompletion.Document.Basic

/-!
# From a tree to documents

Every command becomes a document, enclosing commands before their subcommands. The
subcommand slot is mentioned only if it is not the one that subcommands bring along.
-/

namespace ShellCompletion

/-- The list form of a completion, unless nothing is completed. -/
def Completion.toDocument (completion : Completion) : Option (List Json) :=
  if completion.isNone then Option.none else some completion.toList

/-- The option as a document. -/
def CommandOption.toDocument (option : CommandOption) : OptionDocument where
  optionStrings := option.strings
  metavar := option.metavar
  help := option.help
  takesArgs := option.arity
  group := option.group
  multipleOption := option.repeatable
  complete := option.completion.toDocument
  when := option.when.map (·.render)

/-- The positional argument with a number as a document. -/
def Positional.toDocument (positional : Positional) (number : Nat) : PositionalDocument where
  number := number
  metavar := positional.metavar
  help := positional.help
  repeatable := positional.repeatable
  complete := positional.completion.toDocument
  when := positional.when.map (·.render)

namespace CommandTree

/-- The subcommand slot as a document, unless the subcommands bring it along. -/
def slotDocument (tree : CommandTree) (id : Nat) : Option SlotDocument := do
  let slot ← (tree.command id).slot
  if slot == {} && !(tree.children id).isEmpty then none
  else some ⟨slot.metavar, slot.help⟩

/-- The command as a document. -/
def document (tree : CommandTree) (id : Nat) : CommandDocument :=
  let command := tree.command id
  { prog := tree.commandPath id
    aliases := command.aliases
    help := command.help
    abbreviateCommands := command.abbreviateCommands
    abbreviateOptions := command.abbreviateOptions
    inheritOptions := command.inheritOptions
    subcommands := tree.slotDocument id
    options := command.options.map (·.toDocument)
    positionals := command.positionals.zipIdx.map fun (positional, place) =>
      positional.toDocument (tree.positionalNumber id place) }

/-- The documents of all commands. -/
def toDocuments (tree : CommandTree) : List CommandDocument :=
  tree.walk.map tree.document

end CommandTree
end ShellCompletion
