import ShellCompletion.Scope.Guards
import ShellCompletion.Warning

/-!
# Validation

Checks of a whole tree: names must be usable on a command line and tell subcommands
apart, names of values must fit a line, and conditions must name options in scope.
-/

namespace ShellCompletion

/-- Whether a character may stand in a command name after the first one. -/
def isNameRestChar (c : Char) : Bool :=
  c.isAlphanum || "_.:+@%,-".toList.contains c

/-- Whether a command name is usable as a word: it begins with a letter, a digit or an
underscore, and a few marks may follow. -/
def isCommandName (name : String) : Bool :=
  match name.toList with
  | [] => false
  | first :: rest => (first.isAlphanum || first == '_') && rest.all isNameRestChar

/-- Whether the name of a value fits one line. -/
def isMetavar (name : String) : Bool :=
  !name.isEmpty && name.toList.all fun c => c != '\r' && c != '\n'

/-- The first item that an earlier one equals. -/
def firstRepeated? (seen : List String) : List String → Option String
  | [] => none
  | item :: rest =>
    if seen.contains item then some item else firstRepeated? (item :: seen) rest

namespace CommandTree

/-- What is wrong with a name of a command; the characters matter only if the check is
strict. -/
def nameFault? (tree : CommandTree) (strict : Bool) (id : Nat) (name : String) :
    Option ValidationFault :=
  if name.isEmpty then some (.emptyName (tree.commandPath id))
  else if strict && !isCommandName name then some (.badName name)
  else none

/-- What is wrong with the names of the subcommands taken together. -/
def siblingFault? (tree : CommandTree) (id : Nat) : Option ValidationFault :=
  (firstRepeated? [] ((tree.children id).flatMap fun child => (tree.command child).names)).map
    fun name => .sharedName name (tree.commandPath id)

/-- The names of values that a command gives. -/
def metavars (tree : CommandTree) (id : Nat) : List String :=
  let command := tree.command id
  command.options.filterMap (·.metavar) ++ command.positionals.map (·.metavar)

/-- What is wrong with a command. -/
def commandFault? (tree : CommandTree) (strict : Bool) (id : Nat) : Option ValidationFault :=
  ((tree.command id).names.findSome? (tree.nameFault? strict id)).or <|
    (tree.siblingFault? id).or <|
      ((tree.metavars id).find? (!isMetavar ·)).map fun metavar =>
        .badMetavar metavar (tree.commandPath id)

/-- Warnings about repeatable positionals that have further positions after them. -/
def positionalWarnings (tree : CommandTree) (id : Nat) : List Warning :=
  let command := tree.command id
  let positionals := command.positionals
  (positionals.zipIdx.filter fun (positional, place) =>
      positional.repeatable && (place + 1 < positionals.length || command.slot.isSome)).map
    fun (positional, _) => .repeatableNotLast positional.metavar (tree.commandPath id)

/-- Checks one command. -/
def checkCommand (tree : CommandTree) (strict : Bool) (id : Nat) : Logged Unit := do
  match tree.commandFault? strict id with
  | some fault => throw (.validation fault)
  | none => (tree.positionalWarnings id).forM Logged.warn

/-- The checks that do not depend on the configuration. -/
def checkStructure (tree : CommandTree) (strict : Bool) : Logged Unit :=
  tree.ids.forM (tree.checkCommand strict)

/-- All checks. -/
def validate (tree : CommandTree) (strict : Bool) (config : Config) : Logged Unit := do
  tree.checkStructure strict
  Logged.ofExcept (tree.checkConditions config)

end CommandTree
end ShellCompletion
