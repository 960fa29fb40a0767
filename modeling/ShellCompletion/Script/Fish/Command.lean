import ShellCompletion.Guard.Render
import ShellCompletion.Script.Fish.Action
import ShellCompletion.Script.Outline

/-!
# Completions of a command in fish

Completions for fish are single `complete` lines with a condition each, which first of
all checks that the words are inside the command. Conditions may be shared: each is
then declared once, as a numbered variable, before its first use.
-/

namespace ShellCompletion.Fish

/-- The condition of a line. -/
inductive LineCondition where
  /-- The line is always in force. -/
  | always
  /-- The line carries its condition itself. -/
  | inline (code : String)
  /-- The line refers to a numbered variable. -/
  | shared (number : Nat)
deriving Repr, DecidableEq

/-- One `complete` line. -/
structure CompleteLine where
  /-- When the line is in force. -/
  condition : LineCondition
  /-- What it offers. -/
  arguments : String
deriving Repr, DecidableEq

/-- A declaration of a variable that holds a condition. -/
structure GuardVariable where
  /-- The number of the variable, from one on. -/
  number : Nat
  /-- The condition in shell code. -/
  code : String
deriving Repr, DecidableEq

/-- The part of a script that a command contributes. -/
structure Section where
  /-- The names from the program down to the command, with blanks between them. -/
  path : String
  /-- The variables declared for the command. -/
  declarations : List GuardVariable
  /-- The lines. -/
  lines : List CompleteLine
deriving Repr, DecidableEq

/-- The text of a condition as an argument with a blank before it. -/
def LineCondition.render : LineCondition → String
  | always => ""
  | inline code => " -n " ++ Text.escapeFish code
  | shared number => " -n $guard" ++ toString number

/-- The text of a line of a program, whose name is given as a word of shell code. -/
def CompleteLine.render (program : String) (line : CompleteLine) : String :=
  "complete -c " ++ program ++ line.condition.render ++
    if line.arguments.isEmpty then "" else " " ++ line.arguments

/-- The text of a declaration. -/
def GuardVariable.render (declared : GuardVariable) : String :=
  "set -l guard" ++ toString declared.number ++ " " ++ Text.escapeFish declared.code

/-- The text of a section. -/
def Section.render (program : String) (part : Section) : String :=
  Text.unlines (["# " ++ part.path] ++ part.declarations.map (·.render) ++
    part.lines.map (·.render program))

/-- The word for a comparison. -/
def operator : Comparison → String
  | .eq => "-eq"
  | .ge => "-ge"

/-- The command for a test by a call of the helper function. -/
def helperCommand (call : String) : Test → String
  | .hasOption strings => call ++ " has_option " ++ Text.escapeFishAll strings
  | .optionIs strings values =>
    call ++ " option_is " ++ Text.escapeFishAll strings ++ " -- " ++ Text.escapeFishAll values
  | .positionalContains number words =>
    call ++ " positional_contains " ++ toString number ++ " " ++ Text.escapeFishAll words
  | .positionalCount comparison count =>
    call ++ " num_of_positionals " ++ operator comparison ++ " " ++ toString count

/-- An option string as an argument of the predicate for options; there is none for
old-style options. -/
def optionArgument? (string : String) : Option String :=
  match OptionKind.of string with
  | .short => some ("-s " ++ Text.escapeFish (Text.dropChars 1 string))
  | .long => some (Text.escapeFish (Text.dropChars 2 string))
  | .oldStyle => none

/-- The command for a test by a predicate of fish itself, where there is one. These
predicates do not know which options take values. The count they give includes the
program's name. -/
def builtinCommand? : Test → Option String
  | .hasOption strings => do
    let arguments ← strings.mapM optionArgument?
    pure ("__fish_contains_opt " ++ " ".intercalate arguments)
  | .optionIs _ _ => none
  | .positionalContains _ words =>
    some ("__fish_seen_subcommand_from " ++ Text.escapeFishAll words)
  | .positionalCount comparison count =>
    some ("test (__fish_number_of_cmd_args_wo_opts) " ++ operator comparison ++ " " ++
      toString (count + 1))

/-- The command for a test by a predicate of fish itself, if these are to be used. -/
def fastCommand? (config : Config) (test : Test) : Option String :=
  if config.fishFast then builtinCommand? test else none

/-- The call of the helper function that reads the command line in a scope. -/
def helperCall (scope : Scope) : Emit String := do
  let name ← Emit.helper .fish "helper"
  pure (name ++ (if scope.abbreviateOptions then " -a " else " ") ++
    Text.escapeFish scope.optionTable.render)

/-- The shell code of a guard. -/
def guardCode (scope : Scope) (guard : Guard) : Emit String := do
  let needed := guard.tests.any fun test => (fastCommand? scope.config test).isNone
  let call ← if needed then helperCall scope else pure ""
  pure (guard.render .fish fun test =>
    (fastCommand? scope.config test).getD (helperCommand call test))

/-- The lines of a command with the variables declared for it, while the conditions
declared so far for all commands are known. -/
structure Draft where
  /-- The conditions declared so far, the first one as variable one. -/
  shared : List String
  /-- The variables declared for the command. -/
  declarations : List GuardVariable := []
  /-- The lines of the command. -/
  lines : List CompleteLine := []

/-- The condition of a line for shell code, declared if no variable holds it yet. -/
def Draft.conditionFor (draft : Draft) (config : Config) (code : String) :
    LineCondition × Draft :=
  if config.fishInlineConditions then (.inline code, draft)
  else match draft.shared.idxOf? code with
    | some place => (.shared (place + 1), draft)
    | none =>
      let number := draft.shared.length + 1
      (.shared number, {
        draft with
        shared := draft.shared ++ [code]
        declarations := draft.declarations ++ [⟨number, code⟩] })

/-- The condition of a line for a guard. -/
def Draft.condition (draft : Draft) (scope : Scope) (guard : Guard) :
    Emit (LineCondition × Draft) := do
  if guard.isAlways then pure (.always, draft)
  else pure (draft.conditionFor scope.config (← guardCode scope guard))

/-- The draft with one more line. -/
def Draft.push (draft : Draft) (condition : LineCondition) (arguments : String) : Draft :=
  { draft with lines := draft.lines ++ [⟨condition, arguments⟩] }

/-- The letter that declares an option string of a kind. -/
def kindFlag : OptionKind → String
  | .short => "-s"
  | .long => "-l"
  | .oldStyle => "-o"

/-- The arguments that declare an option with its description and its value. Only
`--opt=value` can carry an optional value in fish. -/
def optionArguments (option : CommandOption) : Emit String := do
  let strings := option.strings.map fun string =>
    kindFlag (OptionKind.of string) ++ " " ++ Text.escapeFish (Text.dropDashes string)
  let help := if option.help.isEmpty then [] else ["-d " ++ Text.escapeFish option.help]
  let value ← match option.arity with
    | .absent => pure []
    | .required => do pure ["-r", ← arguments option.completion]
    | .optional => do pure [← arguments option.completion]
  pure (" ".intercalate (strings ++ help ++ value))

/-- Options are offered only until the word of a subcommand is there. -/
def beforeSubcommand (scope : Scope) : List Guard :=
  if scope.own.command.slot.isSome then
    [(Guard.test (.positionalCount .ge scope.subcommandNumber)).negate]
  else []

/-- Adds the line of an option. -/
def addOption (scope : Scope) (draft : Draft) (declared : Declaration) : Emit Draft := do
  let offered ← Emit.ofExcept (scope.optionGuard declared)
  let guard := Guard.conj ([scope.context] ++ beforeSubcommand scope ++ [offered])
  let (condition, draft) ← draft.condition scope guard
  pure (draft.push condition (← optionArguments declared.option))

/-- Adds the line of a positional argument, unless it completes nothing. -/
def addPositional (scope : Scope) (draft : Draft) (numbered : Nat × Positional) :
    Emit Draft := do
  let positional := numbered.2
  if positional.completion.isNone then pure draft
  else
    let shown ← Emit.ofExcept (scope.whenGuard positional.when)
    let guard := Guard.conj
      [scope.context, Scope.positionGuard numbered.1 positional.repeatable, shown]
    let (condition, draft) ← draft.condition scope guard
    pure (draft.push condition (← arguments positional.completion))

/-- The arguments that offer a name of a subcommand. -/
def subcommandArguments (name help : String) : String :=
  "-f -a " ++ Text.escapeFish name ++
    if help.isEmpty then "" else " -d " ++ Text.escapeFish help

/-- Adds the lines of the subcommands. -/
def addSubcommands (scope : Scope) (draft : Draft) : Emit Draft := do
  if scope.own.command.slot.isNone then pure draft
  else
    let guard := Guard.conj [scope.context, Scope.positionGuard scope.subcommandNumber false]
    let (condition, draft) ← draft.condition scope guard
    pure (scope.own.subcommands.foldl (fun draft command =>
      command.names.foldl (fun draft name =>
        draft.push condition (subcommandArguments name command.help)) draft) draft)

/-- The section of a command, and the conditions declared up to its end. -/
def commandSection (scope : Scope) (shared : List String) : Emit (Section × List String) := do
  let draft ← scope.visibleOptions.foldlM (addOption scope) { shared := shared }
  let draft ← scope.numberedPositionals.foldlM (addPositional scope) draft
  let draft ← addSubcommands scope draft
  pure (⟨scope.commandPath, draft.declarations, draft.lines⟩, draft.shared)

end ShellCompletion.Fish
