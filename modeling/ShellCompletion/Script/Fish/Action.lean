import ShellCompletion.Script.Emit

/-!
# Completing values in fish

The arguments of a `complete` line that offer the candidates for a value.
-/

namespace ShellCompletion.Fish

/-- The candidates that a command prints. -/
def substitution (command : String) : String :=
  "-f -a " ++ Text.escapeFish ("(" ++ command ++ ")")

/-- The function that prints values with their descriptions after a tab. -/
def describe (items : List (String × String)) : Emit String :=
  let words := items.flatMap fun (value, help) => [value, help]
  Emit.generated "describe" ("printf '%s\\t%s\\n' " ++ Text.escapeFishAll words)

/-- The name of the function that completes paths below a directory. -/
def filedir (path options : String) : Emit String := do
  let name ← Emit.helper .fish "filedir"
  pure (substitution (name ++ " " ++ Text.escapeFish path ++ options))

/-- The arguments that offer the candidates of a completion. -/
def arguments : Completion → Emit String
  | .none => pure "-f"
  | .choices (.plain values) =>
    pure ("-f -a " ++ Text.escapeFish (Text.escapeFishAll values))
  | .choices (.described items) => do pure (substitution (← describe items))
  | .file none => pure "-F"
  | .file (some path) => filedir path ""
  | .directory none => pure (substitution "__fish_complete_directories")
  | .directory (some path) => filedir path " -d"
  | .range start stop step =>
    pure (substitution s!"seq {start.toInt} {step.toInt} {stop.toInt}")
  | .exec line => pure (substitution line)
  | .valueList separator values => do
    let function ← Emit.generated "values" ("printf '%s\\n' " ++ Text.escapeFishAll values)
    pure (substitution ("__fish_complete_list " ++ Text.escapeFish separator ++ " " ++ function))
  | .signal start => do pure (substitution (← describe (signalsFrom start)))
  | .command => pure (substitution "__fish_complete_command")
  | .hostname => pure (substitution "__fish_print_hostnames")
  | .process => pure (substitution "__fish_complete_proc")
  | .pid => pure (substitution "__fish_complete_pids")
  | .user => pure (substitution "__fish_complete_users")
  | .group => pure (substitution "__fish_complete_groups")
  | .service => pure (substitution "__fish_print_service_names")
  | .shellVariable => pure (substitution "set -n")

end ShellCompletion.Fish
