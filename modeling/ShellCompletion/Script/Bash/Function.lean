import ShellCompletion.Guard.Render
import ShellCompletion.Script.Bash.Action
import ShellCompletion.Script.Bash.Query
import ShellCompletion.Script.Outline

/-!
# Completion functions for bash

A completion function reads the words before the cursor in a loop, hands over to the
function of a subcommand once its word is there, and otherwise adds the candidates
whose guards hold.
-/

namespace ShellCompletion.Bash

/-- The declarations of the variables. -/
def declarations (options : List ScopedOption) : String :=
  Text.unlines ([
    "local -a POSITIONALS=()",
    "local END_OF_OPTIONS=0 ARGUMENT_OF='' ARGUMENT_PREFIX=''",
    "local argi arg i char k"] ++
    options.map fun option =>
      if option.arity.takesValue then
        "local " ++ option.position ++ "=0 " ++ option.value ++ "=''"
      else "local " ++ option.position ++ "=0")

/-- The hand-over to the function of a subcommand whose word has been typed. -/
def dispatch (function : CommandFunction) : List String :=
  if function.scope.own.subcommands.isEmpty then []
  else
    let number := function.scope.subcommandNumber
    let cases := function.dispatches.map fun (subcommand, target) =>
      casePattern subcommand.words ++ ") " ++ target ++ "; return;;"
    [Text.unlines [
      "if (( $\x7b#POSITIONALS[@]\x7d >= " ++ toString number ++ " )); then",
      "  case \"$\x7bPOSITIONALS[" ++ toString (number - 1) ++ "]\x7d\" in",
      Text.indent (Text.unlines cases) 4,
      "  esac",
      "  return 1",
      "fi"]]

/-- The beginnings, of three characters or more, of the old-style spellings: they are not
read as stacked letters while they are being typed. -/
def oldStyleBeginnings (options : List ScopedOption) : List String :=
  let words := (options.flatMap (·.words)).filter (!Text.beginsWith · "--")
  (words.flatMap fun word =>
    (List.range' 3 (word.length - 2)).map fun count =>
      String.ofList (word.toList.take count)).eraseDups

/-- The block that finds a value attached to an option in the word being completed. -/
def currentWord (options : List ScopedOption) : String :=
  let valued := options.filter (·.arity.takesValue)
  let words := (valued.filter (!·.words.isEmpty)).map fun option =>
    renderPatterns (attachedPatterns option.words) ++ ") ARGUMENT_OF=" ++ option.name ++
      " ARGUMENT_PREFIX=\"$\x7bcur%%=*\x7d=\" cur=\"$\x7bcur#*=\x7d\";;"
  let letters := (valued.filter (!·.letters.isEmpty)).map (fun option =>
    renderPatterns (letterPatterns option.letters) ++ ") ARGUMENT_OF=" ++ option.name ++
      "; break;;") ++ ["*) ;;"]
  let beginnings := oldStyleBeginnings options
  let oldStyle := if beginnings.isEmpty then [] else [casePattern beginnings ++ ") ;;"]
  let stack := Text.unlines [
    "-?*)",
    "  for ((i = 1; i < $\x7b#cur\x7d - 1; ++i)); do",
    "    char=\"$\x7bcur:i:1\x7d\"",
    "    case \"$char\" in",
    Text.indent (Text.unlines letters) 6,
    "    esac",
    "  done",
    "  if [[ -n \"$ARGUMENT_OF\" ]]; then",
    "    ARGUMENT_PREFIX=\"$\x7bcur:0:i+1\x7d\"",
    "    cur=\"$\x7bcur:i+1\x7d\"",
    "  fi;;"]
  let cases := words ++ ["--*) ;;"] ++ oldStyle ++ [stack]
  Text.unlines [
    "if [[ -z \"$ARGUMENT_OF\" ]] && (( ! END_OF_OPTIONS )); then",
    "  case \"$cur\" in",
    Text.indent (Text.unlines cases) 4,
    "  esac",
    "fi"]

/-- The block that completes the value of an option. -/
def arguments (scope : Scope) (options : List ScopedOption) : Emit String := do
  let visible := scope.visibleOptions
  let offered := options.filter fun option =>
    option.arity.takesValue && visible.any (·.sameAddress option.declared)
  let cases ← offered.mapM fun option => do
    pure (option.name ++ ") " ++ (← action option.declared.option.completion) ++ ";;")
  pure (Text.unlines [
    "if [[ -n \"$ARGUMENT_OF\" ]]; then",
    "  case \"$ARGUMENT_OF\" in",
    Text.indent (Text.unlines (cases ++ ["*) return 1;;"])) 4,
    "  esac",
    "  for ((k = 0; k < $\x7b#COMPREPLY[@]\x7d; ++k)); do",
    "    COMPREPLY[k]=\"$ARGUMENT_PREFIX$\x7bCOMPREPLY[k]\x7d\"",
    "  done",
    "  return 0",
    "fi"])

/-- Whether a test asks for the value of an option. -/
def asksValue : Test → Bool
  | .optionIs _ _ => true
  | _ => false

/-- Whether a test asks for a positional word. -/
def asksPositional : Test → Bool
  | .positionalContains _ _ => true
  | _ => false

/-- The name of a helper function if one of the guard's tests needs it. -/
def helperFor (guard : Guard) (needs : Test → Bool) (key : String) : Emit String :=
  if guard.tests.any needs then helper key else pure ""

/-- The guard as a shell condition. -/
def condition (options : List ScopedOption) (guard : Guard) : Emit String := do
  let optionIs ← helperFor guard asksValue "option_is"
  let contains ← helperFor guard asksPositional "contains"
  pure (guard.render .posix fun test => (Query.of options test).render optionIs contains)

/-- A command that is run if a guard holds. -/
def guarded (options : List ScopedOption) (guard : Guard) (command : String) :
    Emit String := do
  if guard.isAlways then pure command
  else pure ((← condition options guard) ++ " && " ++ command)

/-- The block that completes one positional argument. -/
def positionalBlock (scope : Scope) (options : List ScopedOption)
    (numbered : Nat × Positional) : Emit String := do
  let guard ← Emit.ofExcept (scope.positionalGuard numbered.1 numbered.2)
  let command ← action numbered.2.completion
  guarded options guard command

/-- The block that completes names of subcommands, if there are any. -/
def subcommandBlock (scope : Scope) (options : List ScopedOption) : Emit (List String) := do
  if scope.own.subcommands.isEmpty then pure []
  else
    let names := scope.own.subcommands.flatMap (·.names)
    let command ← call "words" (Text.escapeAll names)
    let guard := Scope.positionGuard scope.subcommandNumber false
    pure [← guarded options guard command]

/-- The command that offers the strings of an option. -/
def optionLine (scope : Scope) (options : List ScopedOption) (declared : Declaration) :
    Emit String := do
  let guard ← Emit.ofExcept (scope.optionGuard declared)
  let command ← call "words" (Text.escapeAll declared.option.strings)
  guarded options guard command

/-- The block that completes options, if any are visible. -/
def optionBlock (scope : Scope) (options : List ScopedOption) : Emit (List String) := do
  let visible := scope.visibleOptions
  if visible.isEmpty then pure []
  else
    let lines ← visible.mapM (optionLine scope options)
    pure [Text.unlines [
      "if (( ! END_OF_OPTIONS )) && [[ \"$cur\" == -* ]]; then",
      Text.indent (Text.unlines lines) 2,
      "fi"]]

/-- What the function of the program itself begins with. -/
def prologue : String := Text.unlines [
  "local cur prev words cword split",
  "_init_completion -n = || return"]

/-- The completion function of a command. -/
def render (function : CommandFunction) : Emit String := do
  let scope := function.scope
  if scope.isEmpty then pure function.defineEmpty
  else
    let options := scopedOptions scope
    let value ← arguments scope options
    let positionals ← scope.numberedPositionals.mapM (positionalBlock scope options)
    let subcommands ← subcommandBlock scope options
    let offered ← optionBlock scope options
    pure (function.define (
      (if function.isEntry then [prologue] else []) ++
      [declarations options, readingLoop options] ++ dispatch function ++
      [currentWord options, value] ++ positionals ++ subcommands ++ offered ++
      ["return 0"]))

end ShellCompletion.Bash
