import ShellCompletion.Data.Basic

/-!
# Program interfaces

The command line of a program as its author declares it: the arguments of each command
and its subcommands. Much may be left out and is filled in by `Interface.complete`.
-/

namespace ShellCompletion

/-- What becomes of an argument that is found. -/
inductive ArgumentAction where
  /-- Its value is kept. -/
  | set
  /-- Its value is added to those found before. -/
  | append
  /-- A switch is turned on. -/
  | setTrue
  /-- A switch is turned off. -/
  | setFalse
  /-- The times it is found are counted. -/
  | count
  /-- A help text is shown. -/
  | help
  /-- The version is shown. -/
  | version
deriving Repr, DecidableEq

/-- Whether an argument with the action has values unless something else is said. -/
def ArgumentAction.takesValues : ArgumentAction → Bool
  | .set | .append => true
  | _ => false

/-- What kind of thing a value names. -/
inductive ValueHint where
  /-- Nothing that could be listed. -/
  | other
  /-- A file or a directory. -/
  | anyPath
  /-- A file. -/
  | filePath
  /-- A program by its path. -/
  | executablePath
  /-- A directory. -/
  | directoryPath
  /-- A program by its name. -/
  | commandName
  /-- A user. -/
  | username
  /-- A host. -/
  | hostname
deriving Repr, DecidableEq

/-- A value that an argument may have. -/
structure PossibleValue where
  /-- The value. -/
  name : String
  /-- What it means. -/
  help : Option String := none
  /-- Whether the value is kept from view. -/
  hidden : Bool := false
deriving Repr, DecidableEq

/-- What values an argument takes. -/
inductive ValueKind where
  /-- Any text. -/
  | text
  /-- A path, which is not empty. -/
  | path
  /-- One of some values. -/
  | choice (values : List PossibleValue)
deriving Repr, DecidableEq

/-- The two truth values, as values of an argument. -/
def ValueKind.truth : ValueKind :=
  .choice [⟨"true", none, false⟩, ⟨"false", none, false⟩]

/-- How many values an argument takes at a time; without `most` there is no limit. -/
structure ValueRange where
  /-- The least number. -/
  least : Nat
  /-- The greatest number. -/
  most : Option Nat
deriving Repr, DecidableEq

/-- A fixed number of values. -/
def ValueRange.exactly (count : Nat) : ValueRange :=
  ⟨count, some count⟩

/-- The greatest number of values, where no limit counts as the greatest number of 64
bits. -/
def ValueRange.greatest (range : ValueRange) : Nat :=
  range.most.getD maxUnsigned

/-- Whether there is no limit. -/
def ValueRange.isUnlimited (range : ValueRange) : Bool :=
  range.greatest == maxUnsigned

/-- Whether there may be a value. -/
def ValueRange.takesValues (range : ValueRange) : Bool :=
  0 < range.greatest

/-- An argument of a command. It is an option if it has a letter or a long name, and a
positional argument otherwise. -/
structure Argument where
  /-- The name that groups and conflicts use. -/
  id : String
  /-- The letter after one dash. -/
  short : Option Char := none
  /-- Further letters. -/
  shortAliases : List Char := []
  /-- The name after two dashes. -/
  long : Option String := none
  /-- Further names. -/
  longAliases : List String := []
  /-- The description. -/
  help : Option String := none
  /-- Whether the argument is kept from view. -/
  hidden : Bool := false
  /-- Whether subcommands have the argument too. -/
  isGlobal : Bool := false
  /-- The place of a positional argument, counted from one. -/
  index : Option Nat := none
  /-- What becomes of the argument. -/
  action : Option ArgumentAction := none
  /-- How many values it takes at a time. -/
  range : Option ValueRange := none
  /-- The names of its values. -/
  valueNames : List String := []
  /-- What its values name. -/
  hint : Option ValueHint := none
  /-- What values it takes. -/
  values : ValueKind := .text
  /-- Whether it must be given. -/
  required : Bool := false
  /-- Whether its value stands in the same word, after an equals sign. -/
  requiresEquals : Bool := false
  /-- The value it has where it is given without one. -/
  defaultMissing : Option String := none
  /-- Arguments that may not be given beside it. -/
  conflicts : List String := []
deriving Repr, DecidableEq

namespace Argument

/-- Whether the argument is told by its place. -/
def isPositional (argument : Argument) : Bool :=
  argument.short.isNone && argument.long.isNone

/-- What becomes of the argument; its value is kept unless something else is said. -/
def effectiveAction (argument : Argument) : ArgumentAction :=
  argument.action.getD .set

/-- How many values the argument takes at a time; one unless something else is said. -/
def effectiveRange (argument : Argument) : ValueRange :=
  argument.range.getD (.exactly 1)

/-- The values that the argument may have, as far as they can be listed. -/
def possibleValues (argument : Argument) : List PossibleValue :=
  match argument.values with
  | .choice values => if argument.effectiveRange.takesValues then values else []
  | _ => []

/-- What the values of the argument name; paths are known to be such. -/
def effectiveHint (argument : Argument) : ValueHint :=
  argument.hint.getD
    (if argument.effectiveRange.takesValues && argument.values == .path then .anyPath else .other)

end Argument

/-- A group of arguments. -/
structure ArgumentGroup where
  /-- The name. -/
  id : String
  /-- The names of the arguments. -/
  members : List String
  /-- Whether several of them may be given together. -/
  multiple : Bool := false
deriving Repr, DecidableEq

/-- What an interface says about a command apart from its subcommands. -/
structure CommandFace where
  /-- The name. -/
  name : String
  /-- The description. -/
  about : Option String := none
  /-- The version. -/
  version : Option String := none
  /-- Other names that are shown. -/
  aliases : List String := []
  /-- Whether the command is kept from view. -/
  hidden : Bool := false
  /-- Whether the command and those below it go without the option for its help text. -/
  withoutHelpFlag : Bool := false
  /-- Whether the command and those below it go without the subcommand for help texts. -/
  withoutHelpCommand : Bool := false
  /-- Whether one of the subcommands must be given. -/
  needsSubcommand : Bool := false
  /-- The arguments. -/
  arguments : List Argument := []
  /-- The groups of arguments. -/
  groups : List ArgumentGroup := []
deriving Repr, DecidableEq

/-- A command with its subcommands. -/
inductive Interface where
  /-- A command with what is said about it. -/
  | command (face : CommandFace) (subcommands : List Interface)

instance : Inhabited Interface :=
  ⟨.command { name := "" } []⟩

namespace Interface

/-- What is said about the command. -/
def face : Interface → CommandFace
  | command face _ => face

/-- The commands directly below. -/
def subcommands : Interface → List Interface
  | command _ subcommands => subcommands

end Interface
end ShellCompletion
