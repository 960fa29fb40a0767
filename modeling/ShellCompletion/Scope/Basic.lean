import ShellCompletion.CommandTree.Basic
import ShellCompletion.CommandLine.Table
import ShellCompletion.Config

/-!
# Scopes

The scope of a command is what can be seen from it: the command itself, the enclosing
commands up to the program, and the configuration. It settles inherited switches, the
options that are visible, and the numbers of positions.
-/

namespace ShellCompletion

/-- A command on the way from the program to another, with its subcommands. -/
structure Level where
  /-- What the command declares. -/
  command : Command
  /-- What its subcommands declare, in order. -/
  subcommands : List Command
  /-- The command's place among the subcommands of the enclosing command. -/
  place : Nat

/-- What can be seen from a command. -/
structure Scope where
  /-- The configuration. -/
  config : Config
  /-- The command itself. -/
  own : Level
  /-- The enclosing commands, nearest first. -/
  outer : List Level

/-- An option with its address: how many commands enclose the one that declares it, and
its index among the options of that one. -/
structure Declaration where
  /-- How many commands enclose the declaring one. -/
  depth : Nat
  /-- The index among the options of the declaring command. -/
  index : Nat
  /-- The option. -/
  option : CommandOption
deriving DecidableEq

/-- Whether two declarations have the same address. -/
def Declaration.sameAddress (a b : Declaration) : Bool :=
  a.depth == b.depth && a.index == b.index

/-- A subcommand with the words that select it. -/
structure Subcommand where
  /-- What the subcommand declares. -/
  command : Command
  /-- The words that select it, accepted abbreviations included. -/
  words : List String

/-- The options of a command that so many others enclose. -/
def Command.declarations (command : Command) (depth : Nat) : List Declaration :=
  command.options.zipIdx.map fun (option, index) => ⟨depth, index, option⟩

namespace CommandTree

/-- A command's place among the subcommands of the enclosing command. -/
def place (tree : CommandTree) (id : Nat) : Nat :=
  match (tree.node id).parent with
  | some parent => (tree.children parent).idxOf id
  | none => 0

/-- A command as a level of scopes. -/
def level (tree : CommandTree) (id : Nat) : Level :=
  ⟨tree.command id, (tree.children id).map tree.command, tree.place id⟩

/-- The scope of a command. -/
def scope (tree : CommandTree) (config : Config) (id : Nat) : Scope :=
  ⟨config, tree.level id, (tree.ancestors id).map tree.level⟩

end CommandTree

namespace Scope

/-- The command and the enclosing ones, nearest first. -/
def levels (scope : Scope) : List Level :=
  scope.own :: scope.outer

/-- How many commands enclose the command. -/
def depth (scope : Scope) : Nat :=
  scope.outer.length

/-- The scopes of the enclosing commands, nearest first. -/
def enclosing (config : Config) : List Level → List Scope
  | [] => []
  | level :: outer => ⟨config, level, outer⟩ :: enclosing config outer

/-- The names from the program down to the command. -/
def path (scope : Scope) : List String :=
  (scope.levels.map (·.command.name)).reverse

/-- The names from the program down to the command, with blanks between them. -/
def commandPath (scope : Scope) : String :=
  " ".intercalate scope.path

/-- The value of a switch: of the nearest command that sets it, else the default. -/
def resolve (switch : Command → Tristate) (default : Bool) (levels : List Level) : Bool :=
  levels.foldr (fun level enclosing => (switch level.command).resolve enclosing) default

/-- Whether unambiguous beginnings of subcommand names are accepted. -/
def abbreviateCommands (scope : Scope) : Bool :=
  resolve (·.abbreviateCommands) scope.config.abbreviateCommands scope.levels

/-- Whether unambiguous beginnings of options are accepted. -/
def abbreviateOptions (scope : Scope) : Bool :=
  resolve (·.abbreviateOptions) scope.config.abbreviateOptions scope.levels

/-- Whether options of enclosing commands are shown. -/
def inheritOptions (scope : Scope) : Bool :=
  resolve (·.inheritOptions) scope.config.inheritOptions scope.levels

/-- Whether an option is offered again once it was given. -/
def isRepeatable (scope : Scope) (declared : Declaration) : Bool :=
  declared.option.repeatable.resolve scope.config.multipleOptions

/-- The options of the command itself. -/
def ownOptions (scope : Scope) : List Declaration :=
  scope.own.command.declarations scope.depth

/-- Whether one of the levels declares one of the option strings. -/
def redeclares (levels : List Level) (strings : List String) : Bool :=
  levels.any fun level => level.command.options.any fun option =>
    option.strings.any strings.contains

/-- The options of outer levels none of whose strings a nearer level declares. -/
def unshadowed (nearer : List Level) : List Level → List Declaration
  | [] => []
  | level :: outer =>
    (level.command.declarations outer.length).filter
        (fun declared => !redeclares nearer declared.option.strings) ++
      unshadowed (nearer ++ [level]) outer

/-- The options of enclosing commands that the command shows. -/
def inheritedOptions (scope : Scope) : List Declaration :=
  if scope.inheritOptions then unshadowed [scope.own] scope.outer else []

/-- The options that the command shows, its own first. -/
def visibleOptions (scope : Scope) : List Declaration :=
  scope.ownOptions ++ scope.inheritedOptions

/-- The options of the commands from the given one up, nearest first. -/
def declarationsOf : List Level → List Declaration
  | [] => []
  | level :: outer => level.command.declarations outer.length ++ declarationsOf outer

/-- All options known where the command's words are read, nearest first. -/
def knownOptions (scope : Scope) : List Declaration :=
  declarationsOf scope.levels

/-- The options of the command that declares an option. -/
def peers (scope : Scope) (declared : Declaration) : List Declaration :=
  scope.knownOptions.filter (·.depth == declared.depth)

/-- The visible option that answers to a string. -/
def findOption? (scope : Scope) (string : String) : Option Declaration :=
  scope.visibleOptions.find? (·.option.answersTo string)

/-- Whether giving one option of a command rules out another one, or itself. -/
def excludes (scope : Scope) (declared peer : Declaration) : Bool :=
  if peer.index == declared.index then !scope.isRepeatable declared
  else declared.option.group.isSome && declared.option.group == peer.option.group

/-- The option strings of which none must have been given for an option to be offered:
those of other members of its group, and its own unless it may be repeated. -/
def conflictingStrings (scope : Scope) (declared : Declaration) : List String :=
  ((scope.peers declared).filter (scope.excludes declared)).flatMap (·.option.strings)

/-- The table with which the command's words are read: its own options and those of
all enclosing commands, nearest first. -/
def optionTable (scope : Scope) : OptionTable :=
  (OptionTable.ofOptions (scope.knownOptions.map (·.option))).withAbbreviations
    scope.abbreviateOptions

/-- The positional arguments of the command. -/
def positionals (scope : Scope) : List Positional :=
  scope.own.command.positionals

/-- How many positions of a command line the enclosing commands take up. -/
def slotsBefore (scope : Scope) : Nat :=
  scope.outer.foldr (fun level count => level.command.slotCount + count) 0

/-- The positional arguments of the command with their numbers, counted from one at
the program. -/
def numberedPositionals (scope : Scope) : List (Nat × Positional) :=
  scope.positionals.zipIdx.map fun (positional, place) =>
    (scope.slotsBefore + place + 1, positional)

/-- The number of the command's slot for subcommands. -/
def subcommandNumber (scope : Scope) : Nat :=
  scope.slotsBefore + scope.positionals.length + 1

/-- The subcommands with the words that select them. -/
def subcommands (scope : Scope) : List Subcommand :=
  let commands := scope.own.subcommands
  let spellings :=
    Spellings.new (commands.map (·.names)) minCommandBeginning scope.abbreviateCommands
  commands.zipIdx.map fun (command, place) => ⟨command, spellings.wordsOf place⟩

/-- Whether there is nothing to complete. -/
def isEmpty (scope : Scope) : Bool :=
  scope.positionals.isEmpty && scope.own.subcommands.isEmpty && scope.visibleOptions.isEmpty

end Scope
end ShellCompletion
