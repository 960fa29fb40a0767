import ShellCompletion.Cli.Definition
import ShellCompletion.Config
import ShellCompletion.Error
import ShellCompletion.Interface.Parse
import ShellCompletion.Shell

/-!
# What the compiler is asked to do

A request is what the words of a command line amount to.
-/

namespace ShellCompletion.Cli

/-- A request for a script. -/
structure GenerateRequest where
  /-- The shell. -/
  shell : Shell
  /-- The specification file. -/
  specification : String
  /-- The file to write to. -/
  output : Option String := none
  /-- Whether to write where the shell looks for scripts. -/
  install : Bool := false
  /-- Another name of the program. -/
  programName : Option String := none
  /-- The configuration file. -/
  config : Option String := none
  /-- The values of the first switches and of `zsh_compdef`, by their names. -/
  switches : List (String × Bool) := []
  /-- Files whose contents are placed after the header. -/
  includes : List String := []

/-- A request for a specification in another format. -/
structure ConvertRequest where
  /-- The specification file. -/
  specification : String
  /-- The format. -/
  format : Format
  /-- The file to write to. -/
  output : Option String := none

/-- A request. -/
inductive Request where
  /-- Make a script. -/
  | generate (request : GenerateRequest)
  /-- Write a specification in another format. -/
  | convert (request : ConvertRequest)
  /-- Make the script for the compiler itself. -/
  | completion (shell : Shell)

/-- The last value of an argument. -/
def value? (values : ArgumentValues) (id : String) : Option String :=
  (values.lookup id).bind List.getLast?

/-- Whether a switch is on. -/
def isOn (values : ArgumentValues) (id : String) : Bool :=
  value? values id == some "true"

/-- The shell that was given. -/
def shellOf (values : ArgumentValues) : Shell :=
  ((value? values "shell").bind Shell.ofName?).getD .bash

/-- The arguments that set a switch of the configuration to their value, each with the
name of the switch. -/
def truthSwitches : List (String × String) := [
  ("abbreviate_commands", "abbreviate_commands"),
  ("abbreviate_options", "abbreviate_options"),
  ("inherit_options", "inherit_options"),
  ("repeatable_options", "multiple_options"),
  ("zsh_compdef", "zsh_compdef")]

/-- The switches of the configuration that the arguments set, in order. -/
def switchesOf (values : ArgumentValues) : List (String × Bool) :=
  truthSwitches.filterMap (fun (id, name) =>
    (value? values id).map fun value => (name, value == "true")) ++
  (["fish_fast", "fish_inline_conditions"].filter (isOn values)).map (·, true) ++
  if isOn values "no_vim_modeline" then [("vim_modeline", false)] else []

/-- The request for a script that some values make. -/
def GenerateRequest.ofValues (values : ArgumentValues) : GenerateRequest where
  shell := shellOf values
  specification := (value? values "spec").getD ""
  output := value? values "output"
  install := isOn values "install"
  programName := value? values "program_name"
  config := value? values "config"
  switches := switchesOf values
  includes := (values.lookup "include_files").getD []

/-- The request for another format that some values make. -/
def ConvertRequest.ofValues (values : ArgumentValues) : ConvertRequest where
  specification := (value? values "spec").getD ""
  format := if value? values "to" == some "json" then .json else .yaml
  output := value? values "output"

/-- The request that the words after the name of the compiler make. -/
def Request.ofWords (words : List String) : Except UsageFault Request := do
  match (← interface.parse words).getLast? with
  | some ("generate", values) => return .generate (.ofValues values)
  | some ("convert", values) => return .convert (.ofValues values)
  | some ("completion", values) => return .completion (shellOf values)
  | _ => throw .missingSubcommand

end ShellCompletion.Cli
