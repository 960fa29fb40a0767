import ShellCompletion.Interface.Complete

/-!
# Help texts

What a program says about its interface when it is asked to.
-/

namespace ShellCompletion

/-- How an argument is written in a help text. -/
def Argument.synopsis (argument : Argument) : String :=
  let name := argument.valueNames.head?.getD argument.id
  if argument.isPositional then s!"<{name}>"
  else
    let short := argument.short.map fun letter => String.ofList ['-', letter]
    let words := short.toList ++ (argument.long.map ("--" ++ ·)).toList
    ", ".intercalate words ++ if argument.effectiveRange.takesValues then s!" <{name}>" else ""

/-- A line of a help text: a name and what it stands for. -/
def helpLine (name help : String) : String :=
  "  " ++ name ++ (if help.isEmpty then "" else "  " ++ help) ++ "\n"

/-- A part of a help text, which is left out if it has no lines. -/
def helpPart (title : String) (lines : List String) : String :=
  if lines.isEmpty then "" else "\n" ++ title ++ ":\n" ++ String.join lines

/-- The help text of a command with a complete interface. -/
def Interface.helpText : Interface → String
  | command face subcommands =>
    let shown := face.arguments.filter (!·.hidden)
    let (positionals, options) := shown.partition (·.isPositional)
    let argumentLine (argument : Argument) := helpLine argument.synopsis (argument.help.getD "")
    let commandLine (subcommand : Interface) :=
      helpLine subcommand.face.name (subcommand.face.about.getD "")
    face.about.getD face.name ++ "\n" ++
      helpPart "Commands"
        ((subcommands.filter (!·.face.hidden)).map commandLine) ++
      helpPart "Arguments" (positionals.map argumentLine) ++
      helpPart "Options" (options.map argumentLine)

end ShellCompletion
