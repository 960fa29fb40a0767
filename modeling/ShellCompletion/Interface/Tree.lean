import ShellCompletion.CommandTree.Basic
import ShellCompletion.Interface.Complete
import ShellCompletion.Text.Control
import ShellCompletion.Text.LetterCase
import ShellCompletion.Warning

/-!
# Trees of program interfaces

The command tree of a complete interface. Arguments and subcommands that are kept from
view are left out. An option has at most one value in a command tree, so an argument
with more values becomes an option with one. Descriptions are written without what
controls a terminal.
-/

namespace ShellCompletion

/-- A description as the tree has it; nothing where there is none. -/
def shownText (text : Option String) : String :=
  Text.withoutControls (text.getD "")

namespace ValueHint

/-- How a value of the kind is completed. -/
def completion : ValueHint → Completion
  | .anyPath | .filePath | .executablePath => .file none
  | .directoryPath => .directory none
  | .commandName => .command
  | .username => .user
  | .hostname => .hostname
  | .other => .none

end ValueHint

namespace Argument

/-- The words that stand for an option. -/
def optionStrings (argument : Argument) : List String :=
  let shorts := match argument.short with
    | some letter => letter :: argument.shortAliases
    | none => []
  let longs := match argument.long with
    | some name => name :: argument.longAliases
    | none => []
  shorts.map (fun letter => String.ofList ['-', letter]) ++ longs.map ("--" ++ ·)

/-- The arity nearest to the number of values, and whether it says less. -/
def valueArity (argument : Argument) : Arity × Bool :=
  let range := argument.effectiveRange
  let arity := if range.least == 0 then Arity.optional else .required
  match range.greatest with
  | 0 => (.absent, false)
  | 1 => (arity, false)
  | _ => (arity, true)

/-- The values that are shown, if there are any. -/
def choices (argument : Argument) : Option Choices :=
  let shown := argument.possibleValues.filter (!·.hidden)
  if shown.isEmpty then none
  else if shown.any (·.help.isSome) then
    some (.described (shown.map fun value => (value.name, shownText value.help)))
  else some (.plain (shown.map (·.name)))

/-- The name of the argument in messages. -/
def label (argument : Argument) (command : String) : String :=
  command ++ " " ++ argument.id

/-- How the values of the argument are completed where `completion` is one way among
others. -/
def describedCompletion (argument : Argument) (command : String) :
    Except Error Completion :=
  let hinted := argument.effectiveHint.completion
  match argument.choices with
  | none => .ok hinted
  | some choices =>
    if hinted.isNone then .ok (.choices choices)
    else .error (.ambiguousCompletion (argument.label command))

/-- The option that an argument of a command becomes, before its group is known. -/
def optionDraft (argument : Argument) (command : String) : Logged OptionDraft := do
  let (arity, repeatable) ← match argument.effectiveAction with
    | .set => pure (argument.valueArity, Tristate.inherit)
    | .append => pure (argument.valueArity, Tristate.set true)
    | .count => pure ((Arity.absent, false), Tristate.set true)
    | _ => pure ((Arity.absent, false), Tristate.inherit)
  if arity.2 then
    let range := argument.effectiveRange
    Logged.warn (.severalValues (argument.label command) range.least range.greatest arity.1)
  let draft : OptionDraft := {
    strings := argument.optionStrings
    help := shownText argument.help
    arity := arity.1
    repeatable := repeatable }
  if !arity.1.takesValue then return draft
  let draft := { draft with metavar := argument.valueNames.head? }
  match argument.choices with
  | some (.plain values) =>
    return { draft with
      choices := some values, completion := some argument.effectiveHint.completion }
  | _ =>
    let completion ← Logged.ofExcept (argument.describedCompletion command)
    return { draft with completion := some completion }

/-- The positional argument that an argument of a command becomes. -/
def positional (argument : Argument) (command : String) : Except Error Positional := do
  let completion ← argument.describedCompletion command
  return {
    metavar := argument.valueNames.head?.getD (Text.upper argument.id)
    help := shownText argument.help
    repeatable := 1 < argument.effectiveRange.greatest ||
      argument.effectiveAction == .append
    completion := completion }

end Argument

namespace CommandFace

/-- The first group of a command that holds an argument and allows only one at a time. -/
def exclusiveGroup? (face : CommandFace) (argument : Argument) : Option String :=
  (face.groups.find? fun group => !group.multiple && group.members.contains argument.id).map
    (·.id)

/-- The arguments that are shown. -/
def shown (face : CommandFace) : List Argument :=
  face.arguments.filter (!·.hidden)

/-- The positional arguments that are shown, in the order of their places. -/
def positionals (face : CommandFace) : List Argument :=
  (face.shown.filter (·.isPositional)).mergeSort fun a b =>
    match a.index, b.index with
    | some a, some b => a ≤ b
    | some _, none => true
    | none, some _ => false
    | none, none => true

/-- The option that an argument of the command becomes. -/
def option (face : CommandFace) (argument : Argument) : Logged CommandOption := do
  let draft ← argument.optionDraft face.name
  Logged.ofExcept { draft with group := face.exclusiveGroup? argument }.build

end CommandFace

namespace CommandTree

/-- Adds the options of a command to the node for it. -/
def addOptionsOf (tree : CommandTree) (id : Nat) (face : CommandFace) :
    Logged CommandTree :=
  (face.shown.filter (!·.isPositional)).foldlM (fun tree argument => do
    Logged.ofExcept (tree.addOption id (← face.option argument))) tree

/-- Adds the positional arguments of a command to the node for it. -/
def addPositionalsOf (tree : CommandTree) (id : Nat) (face : CommandFace) :
    Logged CommandTree :=
  face.positionals.foldlM (fun tree argument => do
    let positional ← Logged.ofExcept (argument.positional face.name)
    return tree.addPositional id positional) tree

mutual

/-- Adds what a complete interface says about a command to the node for it. -/
def addInterface (tree : CommandTree) (id : Nat) : Interface → Logged CommandTree
  | .command face subcommands => do
    let isProgram := (tree.node id).parent.isNone
    let tree := tree.modify id fun command => { command with
      help := shownText face.about
      aliases := if isProgram then command.aliases else face.aliases }
    let tree ← tree.addOptionsOf id face
    let tree ← tree.addPositionalsOf id face
    tree.addSubcommandsOf id subcommands

/-- Adds the subcommands of a command below the node for it. -/
def addSubcommandsOf (tree : CommandTree) (id : Nat) : List Interface → Logged CommandTree
  | [] => pure tree
  | subcommand :: rest => do
    let face := subcommand.face
    if face.hidden then tree.addSubcommandsOf id rest
    else
      let (tree, child) ←
        Logged.ofExcept (tree.addSubcommand id face.name (shownText face.about))
      let tree ← tree.addInterface child subcommand
      tree.addSubcommandsOf id rest

end

/-- The tree of a program with a complete interface. -/
def ofComplete (interface : Interface) : Logged CommandTree :=
  (CommandTree.new interface.face.name).addInterface 0 interface

/-- The tree of a program with an interface. -/
def ofInterface (interface : Interface) : Logged CommandTree :=
  ofComplete interface.complete

end CommandTree
end ShellCompletion
