import ShellCompletion.Guard.Basic
import ShellCompletion.Scope.Basic

/-!
# Guards of arguments

Conditions name options by any of their strings. Compiled in a scope, a condition
becomes a guard that names every string of the options it means.
-/

namespace ShellCompletion.Scope

/-- The option that a condition means by a string. -/
def resolveReference (scope : Scope) (string : String) : Except Error Declaration :=
  match scope.findOption? string with
  | some declared => .ok declared
  | none => .error (.unresolvedOption scope.commandPath string)

/-- The strings of the options that a condition means, each once. -/
def referencedStrings (scope : Scope) (condition : Condition) : Except Error (List String) := do
  let meant ← condition.options.mapM scope.resolveReference
  pure (meant.flatMap (·.option.strings)).eraseDups

/-- The guard of a condition. -/
def compile (scope : Scope) (condition : Condition) : Except Error Guard := do
  let strings ← scope.referencedStrings condition
  match condition with
  | .hasOption _ => pure (.test (.hasOption strings))
  | .optionIs _ values => pure (.test (.optionIs strings values))

/-- The guard of a condition if there is one. -/
def whenGuard (scope : Scope) : Option Condition → Except Error Guard
  | some condition => scope.compile condition
  | none => .ok .always

/-- The guard under which an option is offered: nothing that rules it out was given, and
its condition holds. -/
def optionGuard (scope : Scope) (declared : Declaration) : Except Error Guard := do
  let conflicts := scope.conflictingStrings declared
  let free := if conflicts.isEmpty then [] else [(Guard.test (.hasOption conflicts)).negate]
  let shown ← scope.whenGuard declared.option.when
  pure (.conj (free ++ [shown]))

/-- The guard under which the positional argument with a number is being typed. -/
def positionGuard (number : Nat) (repeatable : Bool) : Guard :=
  .test (.positionalCount (if repeatable then .ge else .eq) (number - 1))

/-- The guard under which a positional argument is offered. -/
def positionalGuard (scope : Scope) (number : Nat) (positional : Positional) :
    Except Error Guard := do
  let shown ← scope.whenGuard positional.when
  pure (.conj [positionGuard number positional.repeatable, shown])

/-- The guard under which the words are inside the command: at every enclosing command,
the word in its subcommand slot selects the next command on the way. -/
def contextTests (place : Nat) : List Scope → List Guard
  | [] => []
  | scope :: outer =>
    (match scope.subcommands[place]? with
      | some subcommand =>
        [Guard.test (.positionalContains scope.subcommandNumber subcommand.words)]
      | none => []) ++ contextTests scope.own.place outer

/-- The guard under which the words are inside the command. -/
def context (scope : Scope) : Guard :=
  .conj (contextTests scope.own.place (enclosing scope.config scope.outer)).reverse

/-- Compiles every condition of the command itself. -/
def checkConditions (scope : Scope) : Except Error Unit :=
  scope.own.command.conditions.forM fun condition => discard (scope.compile condition)

end ShellCompletion.Scope

namespace ShellCompletion.CommandTree

/-- Compiles every condition of every command in the scope of that command. -/
def checkConditions (tree : CommandTree) (config : Config) : Except Error Unit :=
  tree.ids.forM fun id => (tree.scope config id).checkConditions

end ShellCompletion.CommandTree
