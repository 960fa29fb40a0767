import ShellCompletion.Script.Bash.Function
import ShellCompletion.Script.Bash.Helpers

/-!
# Scripts for bash

A script for bash consists of helper functions, a completion function for each command,
and the registration of the program's function.
-/

namespace ShellCompletion.Bash

/-- The line that registers the program's function for its names. -/
def registration (tree : CommandTree) : String :=
  "complete -F " ++ tree.functionName 0 ++ " " ++ Text.escapeAll (tree.command 0).names

/-- How the script of a program is written. -/
def writer (tree : CommandTree) : FunctionWriter where
  shell := .bash
  helpers := helpers tree.programName
  header := generationNotice
  render := render
  registration := registration tree

end ShellCompletion.Bash
