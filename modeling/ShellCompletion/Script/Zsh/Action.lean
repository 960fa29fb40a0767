import ShellCompletion.Script.Emit

/-!
# Completing values in zsh

The action of an `_arguments` specification that offers the candidates for a value. It
is shell code inside a field of the specification; the whole specification is quoted
later.
-/

namespace ShellCompletion.Zsh

/-- Whether a character is special in a field of a specification. -/
def isFieldMark (c : Char) : Bool :=
  c == '\\' || c == '[' || c == ']' || c == ':'

/-- A text inside a field, with a backslash before every special character. -/
def escapeField (text : String) : String :=
  String.ofList (text.toList.flatMap fun c => if isFieldMark c then ['\\', c] else [c])

/-- A value of a described list, where colons separate descriptions. -/
def escapeItem (value : String) : String :=
  String.ofList (value.toList.flatMap fun c =>
    if c == '\\' || c == ':' then ['\\', c] else [c])

/-- A value with its description. -/
def describedItem (value help : String) : String :=
  if help.isEmpty then escapeItem value else escapeItem value ++ ":" ++ help

/-- The function that offers values with their descriptions under a label. -/
def describe (label : String) (items : List (String × String)) : Emit String :=
  let lines := items.map fun (value, help) => "  " ++ Text.escape (describedItem value help)
  Emit.generated "describe" (
    "local -a items=(\n" ++ Text.unlines lines ++ "\n)\n_describe -- " ++ Text.escape label ++ " items")

/-- The action that offers the candidates of a completion under a label. -/
def action (label : String) : Completion → Emit String
  | .none => pure " "
  | .choices (.plain values) => pure ("(" ++ Text.escapeAll values ++ ")")
  | .choices (.described items) => describe label items
  | .file none => pure "_files"
  | .file (some path) => pure ("_files -W " ++ Text.escape path)
  | .directory none => pure "_directories"
  | .directory (some path) => pure ("_directories -W " ++ Text.escape path)
  | .range start stop step =>
    pure ("\x7bcompadd -- $(seq " ++ s!"{start.toInt} {step.toInt} {stop.toInt}" ++ ")\x7d")
  | .exec line => do
    pure ("\x7b" ++ (← Emit.helper .zsh "exec") ++ " " ++ Text.escape line ++ "\x7d")
  | .valueList separator values =>
    Emit.generated "values" ("_values -s " ++ Text.escape separator ++ " " ++
      Text.escape label ++ " " ++ Text.escapeAll (values.map escapeField))
  | .signal start => describe "signal" (signalsFrom start)
  | .command => pure "_command_names"
  | .hostname => pure "_hosts"
  | .process => pure "_process_names -a"
  | .pid => pure "_pids"
  | .user => pure "_users"
  | .group => pure "_groups"
  | .shellVariable => pure "_vars"
  | .service => do
    Emit.warn .noServiceNames
    pure " "

end ShellCompletion.Zsh
