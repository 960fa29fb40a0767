import ShellCompletion.Script.Bash.Script
import ShellCompletion.Script.Fish.Script
import ShellCompletion.Script.Zsh.Script

/-!
# Completion scripts

The completion script of a program for a shell.
-/

namespace ShellCompletion.CommandTree

/-- The completion script of the program for a shell. All conditions are compiled before
any code is written, each in the scope of the command that declares it. -/
def script (tree : CommandTree) (shell : Shell) (config : Config) : Logged String := do
  Logged.ofExcept (tree.checkConditions config)
  match shell with
  | .bash => (Bash.writer tree).script tree config
  | .zsh => (Zsh.writer tree config).script tree config
  | .fish => Fish.script tree config

end ShellCompletion.CommandTree
