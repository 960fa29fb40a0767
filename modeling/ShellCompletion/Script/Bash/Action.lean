import ShellCompletion.Script.Emit

/-!
# Completing values in bash

The command that adds the candidates for a value to `COMPREPLY`.
-/

namespace ShellCompletion.Bash

/-- The name of a helper function. -/
def helper (key : String) : Emit String :=
  Emit.helper .bash key

/-- A call of a helper function with arguments in shell code. -/
def call (key arguments : String) : Emit String := do
  pure ((← helper key) ++ " " ++ arguments)

/-- Candidates of a kind that bash itself knows. -/
def compgen (kind : String) : String :=
  "COMPREPLY+=($(compgen -A " ++ kind ++ " -- \"$cur\"))"

/-- The output of listing processes by one column, as words. -/
def processColumn (column : String) : String :=
  "$(command ps -e -o " ++ column ++ "= 2>/dev/null)"

/-- The integers of a range in shell code. -/
def seq (start stop step : Int64) : String :=
  s!"seq {start.toInt} {step.toInt} {stop.toInt}"

/-- The command that adds the candidates of a completion. -/
def action : Completion → Emit String
  | .none => pure ":"
  | .choices options => call "words" (Text.escapeAll options.values)
  | .file none => pure "_filedir"
  | .file (some path) => call "filedir_in" (Text.escape path)
  | .directory none => pure "_filedir -d"
  | .directory (some path) => call "filedir_in" (Text.escape path ++ " -d")
  | .range start stop step => call "words" ("$(" ++ seq start stop step ++ ")")
  | .exec line => call "exec" (Text.escape line)
  | .valueList separator values =>
    call "value_list" (Text.escape separator ++ " " ++ Text.escapeAll values)
  | .signal start => call "words" (Text.escapeAll ((signalsFrom start).map (·.1)))
  | .pid => call "words" (processColumn "pid")
  | .process => call "words" (processColumn "comm")
  | .command => pure (compgen "command")
  | .hostname => pure (compgen "hostname")
  | .user => pure (compgen "user")
  | .group => pure (compgen "group")
  | .service => pure (compgen "service")
  | .shellVariable => pure (compgen "variable")

end ShellCompletion.Bash
