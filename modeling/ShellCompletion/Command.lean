import ShellCompletion.CommandOption

/-!
# Commands

What one program or subcommand declares, apart from its place among the others.
-/

namespace ShellCompletion

/-- A positional argument. Its number follows from its place among the command's
positionals and from the slots of the enclosing commands. -/
structure Positional where
  /-- The name of the value. -/
  metavar : String
  /-- The description. -/
  help : String := ""
  /-- Whether the argument stands for every position from its own onward. -/
  repeatable : Bool := false
  /-- How the value is completed. -/
  completion : Completion := .none
  /-- When the argument is shown. -/
  when : Option Condition := none
deriving Repr, DecidableEq

/-- The slot in which a subcommand is named. -/
structure SubcommandSlot where
  /-- The name of the slot. -/
  metavar : String := "command"
  /-- The description. -/
  help : String := ""
deriving Repr, DecidableEq

/-- What a program or subcommand declares. -/
structure Command where
  /-- The name. -/
  name : String
  /-- Other names. -/
  aliases : List String := []
  /-- The description. -/
  help : String := ""
  /-- Whether unambiguous beginnings of subcommand names are accepted. -/
  abbreviateCommands : Tristate := .inherit
  /-- Whether unambiguous beginnings of options are accepted. -/
  abbreviateOptions : Tristate := .inherit
  /-- Whether the options of enclosing commands are shown. -/
  inheritOptions : Tristate := .inherit
  /-- The options. -/
  options : List CommandOption := []
  /-- The positional arguments. -/
  positionals : List Positional := []
  /-- The slot for subcommands, if there is one. -/
  slot : Option SubcommandSlot := none
deriving DecidableEq, Inhabited

namespace Command

/-- The name and the other names. -/
def names (command : Command) : List String :=
  command.name :: command.aliases

/-- The first option that answers to a string. -/
def findOption? (command : Command) (string : String) : Option CommandOption :=
  command.options.find? (·.answersTo string)

/-- The groups of the options, each once, in the order of their first use. -/
def groups (command : Command) : List String :=
  (command.options.filterMap (·.group)).eraseDups

/-- How many positions of a command line the command takes up. -/
def slotCount (command : Command) : Nat :=
  command.positionals.length + if command.slot.isSome then 1 else 0

/-- The conditions of the options, then those of the positionals. -/
def conditions (command : Command) : List Condition :=
  command.options.filterMap (·.when) ++ command.positionals.filterMap (·.when)

end Command
end ShellCompletion
