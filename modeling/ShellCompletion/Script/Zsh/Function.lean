import ShellCompletion.Guard.Render
import ShellCompletion.Script.Outline
import ShellCompletion.Script.Zsh.Action

/-!
# Completion functions for zsh

A completion function has its helper read the words before the cursor, hands over to
the function of a subcommand once its word is there, and otherwise hands a list of
specifications to `_arguments`. What has a condition joins the list only if the
condition holds.
-/

namespace ShellCompletion.Zsh

/-- The specifications of a function. -/
structure Specs where
  /-- Those that are always in the list. -/
  fixed : List String := []
  /-- The lines that add the others. -/
  conditional : List String := []

/-- The specifications of one part before those of another. -/
def Specs.append (a b : Specs) : Specs :=
  ⟨a.fixed ++ b.fixed, a.conditional ++ b.conditional⟩

/-- The specifications of several parts. -/
def Specs.join (parts : List Specs) : Specs :=
  parts.foldl append {}

/-- The command for a test; the helper function is given by name. -/
def testCommand (helper : String) : Test → String
  | .hasOption strings => helper ++ " has_option " ++ Text.escapeAll strings
  | .optionIs strings values =>
    helper ++ " option_is " ++ Text.escapeAll strings ++ " -- " ++ Text.escapeAll values
  | .positionalContains number words =>
    helper ++ " positional_contains " ++ toString number ++ " " ++ Text.escapeAll words
  | .positionalCount comparison count =>
    let operator := match comparison with
      | .eq => "-eq"
      | .ge => "-ge"
    helper ++ " num_of_positionals " ++ operator ++ " " ++ toString count

/-- A specification that is in the list if a guard holds. -/
def Specs.ofGuarded (helper : String) (guard : Guard) (spec : String) : Specs :=
  if guard.isAlways then ⟨[spec], []⟩
  else ⟨[], [guard.render .posix (testCommand helper) ++ " && arguments+=(" ++ spec ++ ")"]⟩

/-- What follows an option string in a specification: how its value is given. -/
def formSuffix (kind : OptionKind) : Arity → String
  | .absent => ""
  | .required => if kind == .short then "+" else "="
  | .optional => if kind == .short then "-" else "=-"

/-- The option strings of a specification with what follows them. -/
def optionForms (option : CommandOption) : String :=
  let forms := option.strings.map fun string =>
    Text.escape (string ++ formSuffix (OptionKind.of string) option.arity)
  match forms with
  | [form] => form
  | forms => "\x7b" ++ ",".intercalate forms ++ "\x7d"

/-- What comes before the option strings: the options that are no longer offered, and
whether the option may be repeated. Hidden options are marked by an exclamation mark. -/
def optionHead (scope : Scope) (declared : Declaration) (hidden : Bool) : String :=
  if hidden then "!"
  else
    let conflicts := scope.conflictingStrings declared
    (if conflicts.isEmpty then "" else "(" ++ " ".intercalate conflicts ++ ")") ++
      if scope.isRepeatable declared then "*" else ""

/-- The fields after the option strings: the description, and the name and the action of
the value. -/
def optionFields (option : CommandOption) (hidden : Bool) : Emit String := do
  let help :=
    if option.help.isEmpty || hidden then "" else "[" ++ escapeField option.help ++ "]"
  if option.takesValue then
    let metavar := option.displayMetavar
    let act ← if hidden then pure " " else action metavar option.completion
    let colon := if option.arity == .optional then "::" else ":"
    pure (help ++ colon ++ escapeField metavar ++ ":" ++ act)
  else pure help

/-- A part of a specification, quoted unless it is empty. -/
def quotePart (part : String) : String :=
  if part.isEmpty then "" else Text.escape part

/-- The specification of an option. -/
def optionSpec (scope : Scope) (declared : Declaration) (hidden : Bool) : Emit String := do
  let fields ← optionFields declared.option hidden
  pure (quotePart (optionHead scope declared hidden) ++ optionForms declared.option ++
    quotePart fields)

/-- The options among those of enclosing commands that are not visible, but have a string
of their own. -/
def hiddenOptions (visible : List Declaration) (seen : List String) :
    List Declaration → List Declaration
  | [] => []
  | declared :: rest =>
    let strings := declared.option.strings
    if visible.any (·.sameAddress declared) || strings.all seen.contains then
      hiddenOptions visible seen rest
    else declared :: hiddenOptions visible (seen ++ strings) rest

/-- The options that the words are read with although they are not offered. -/
def hidden (scope : Scope) : List Declaration :=
  let visible := scope.visibleOptions
  hiddenOptions visible (visible.flatMap (·.option.strings)) (Scope.declarationsOf scope.outer)

/-- The specification of a position that completes nothing. -/
def placeholder (number : Nat) (metavar : String) : String :=
  Text.escape (toString number ++ ":" ++ escapeField metavar ++ ": ")

/-- The positions of a command as placeholders: they are typed already, and only keep the
numbering. -/
def placeholders (scope : Scope) : List String :=
  (scope.numberedPositionals.map fun (number, positional) =>
    placeholder number positional.metavar) ++
  (scope.own.command.slot.toList.map fun slot => placeholder scope.subcommandNumber slot.metavar)

/-- The description of a slot, else its name. -/
def slotMessage (metavar help : String) : String :=
  if help.isEmpty then metavar else help

/-- The specification of a position with its message and action. -/
def positionSpec (head message act : String) : String :=
  Text.escape (head ++ ":" ++ escapeField message ++ ":" ++ act)

/-- The specification of a visible option. -/
def visibleSpec (scope : Scope) (helper : String) (declared : Declaration) : Emit Specs := do
  let spec ← optionSpec scope declared false
  let guard ← Emit.ofExcept (scope.whenGuard declared.option.when)
  pure (.ofGuarded helper guard spec)

/-- The specification of a positional argument. -/
def positionalSpec (scope : Scope) (helper : String) (numbered : Nat × Positional) :
    Emit Specs := do
  let positional := numbered.2
  let act ← action positional.metavar positional.completion
  let head := if positional.repeatable then "*" else toString numbered.1
  let spec := positionSpec head (slotMessage positional.metavar positional.help) act
  let guard ← Emit.ofExcept (scope.whenGuard positional.when)
  pure (.ofGuarded helper guard spec)

/-- The specification of the slot for subcommands. -/
def slotSpec (scope : Scope) (slot : SubcommandSlot) : Emit String := do
  let items := scope.own.subcommands.flatMap fun command =>
    command.names.map fun name => (name, command.help)
  let act ← describe slot.metavar items
  pure (positionSpec (toString scope.subcommandNumber) (slotMessage slot.metavar slot.help) act)

/-- All specifications of a function. -/
def specs (scope : Scope) (helper : String) : Emit Specs := do
  let visible ← scope.visibleOptions.mapM (visibleSpec scope helper)
  let hidden ← (hidden scope).mapM (optionSpec scope · true)
  let outer := (Scope.enclosing scope.config scope.outer).reverse.flatMap placeholders
  let positionals ← scope.numberedPositionals.mapM (positionalSpec scope helper)
  let slot ← scope.own.command.slot.toList.mapM (slotSpec scope)
  pure (.join (visible ++ [⟨hidden ++ outer, []⟩] ++ positionals ++ [⟨slot, []⟩]))

/-- The hand-over to the function of a subcommand whose word has been typed. -/
def dispatch (function : CommandFunction) : List String :=
  if function.scope.own.subcommands.isEmpty then []
  else
    let number := toString function.scope.subcommandNumber
    let cases := function.dispatches.map fun (subcommand, target) =>
      "(" ++ casePattern subcommand.words ++ ") " ++ target ++ "; return;;"
    [Text.unlines [
      "if (( $\x7b#HELPER_POSITIONALS\x7d >= " ++ number ++ " )); then",
      "  case \"$\x7bHELPER_POSITIONALS[" ++ number ++ "]\x7d\" in",
      Text.indent (Text.unlines cases) 4,
      "  esac",
      "  return 1",
      "fi"]]

/-- The call that reads the words before the cursor. -/
def setup (scope : Scope) (helper : String) : String :=
  let abbreviate := if scope.abbreviateOptions then " -a" else ""
  Text.unlines [
    "local -a HELPER_POSITIONALS HELPER_OPTIONS HELPER_VALUES",
    helper ++ " setup" ++ abbreviate ++ " " ++ Text.escape scope.optionTable.render ++
      " \"$\x7b(@)words[2,CURRENT-1]\x7d\" || return 1"]

/-- The list of the specifications that are always in it. -/
def argumentList (fixed : List String) : String :=
  if fixed.isEmpty then "local -a arguments=()"
  else Text.unlines ["local -a arguments=(", Text.indent (Text.unlines fixed) 2, ")"]

/-- The call of `_arguments`. Short options may be stacked unless there are old-style
options. -/
def argumentCall (scope : Scope) : String :=
  let oldStyle := scope.optionTable.entries.any (OptionKind.of ·.option == .oldStyle)
  "_arguments -S" ++ (if oldStyle then "" else " -s") ++ " \"$\x7barguments[@]\x7d\""

/-- The completion function of a command. -/
def render (function : CommandFunction) : Emit String := do
  let scope := function.scope
  if scope.isEmpty then pure function.defineEmpty
  else
    let helper ← Emit.helper .zsh "helper"
    let specs ← specs scope helper
    let conditional :=
      if specs.conditional.isEmpty then [] else [Text.unlines specs.conditional]
    pure (function.define ([setup scope helper] ++ dispatch function ++
      [argumentList specs.fixed] ++ conditional ++ [argumentCall scope]))

end ShellCompletion.Zsh
