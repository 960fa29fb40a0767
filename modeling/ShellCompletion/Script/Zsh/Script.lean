import ShellCompletion.Script.Zsh.Function
import ShellCompletion.Script.Zsh.Helpers

/-!
# Scripts for zsh

A script for zsh begins with a `#compdef` line and ends with a call of the program's
function, or ends with a `compdef` call that registers it.
-/

namespace ShellCompletion.Zsh

/-- The line that makes zsh load the script for the program's names. -/
def header (tree : CommandTree) (config : Config) : String :=
  if config.zshCompdef then
    "#compdef " ++ Text.escapeAll (tree.command 0).names ++ "\n\n" ++ generationNotice
  else generationNotice

/-- The line that calls or registers the program's function. -/
def registration (tree : CommandTree) (config : Config) : String :=
  let entry := tree.functionName 0
  if config.zshCompdef then entry ++ " \"$@\""
  else "compdef " ++ entry ++ " " ++ Text.escapeAll (tree.command 0).names

/-- How the script of a program is written. -/
def writer (tree : CommandTree) (config : Config) : FunctionWriter where
  shell := .zsh
  helpers := helpers tree.programName
  header := header tree config
  render := render
  registration := registration tree config

end ShellCompletion.Zsh
