import ShellCompletion.Interface.Basic

/-!
# Completing program interfaces

What an interface leaves out is filled in: the actions, the values and the numbers of
values of arguments, the options and the subcommand that show help texts, and what
subcommands have from the commands around them.
-/

namespace ShellCompletion

namespace Argument

/-- The argument with its action. Where values may follow without limit, those of a
positional argument are added up. -/
def withAction (argument : Argument) : Argument :=
  let action := argument.action.getD
    (if argument.range == some (.exactly 0) then .setTrue
    else if argument.isPositional && argument.range.any (·.isUnlimited) then .append
    else .set)
  { argument with action := some action }

/-- The argument with what values it takes: truth values for a switch unless others are
listed. -/
def withValues (argument : Argument) : Argument :=
  match argument.effectiveAction, argument.values with
  | .setTrue, .text | .setFalse, .text => { argument with values := .truth }
  | _, _ => argument

/-- The argument with its number of values: one for each of several names, else as many
as its action takes. -/
def withRange (argument : Argument) : Argument :=
  let count :=
    if 1 < argument.valueNames.length then argument.valueNames.length
    else if argument.effectiveAction.takesValues then 1
    else 0
  { argument with range := some (argument.range.getD (.exactly count)) }

/-- The argument with what it leaves out filled in. -/
def complete (argument : Argument) : Argument :=
  argument.withAction.withValues.withRange

/-- Whether a help text at length says more about the argument than a short one. This is
asked before the argument is complete. -/
def hasLongHelp (argument : Argument) : Bool :=
  !argument.hidden && argument.possibleValues.any fun value => !value.hidden && value.help.isSome

/-- The option that shows the help text. -/
def helpFlag (long : Bool) : Argument where
  id := "help"
  short := some 'h'
  long := some "help"
  help := some (if long then "Print help (see more with '--help')" else "Print help")
  action := some .help

/-- The option that shows the version. -/
def versionFlag : Argument where
  id := "version"
  short := some 'V'
  long := some "version"
  help := some "Print version"
  action := some .version

end Argument

/-- Gives places to the positional arguments that have none, in order from the given
one. -/
def numberPositionals : Nat → List Argument → List Argument
  | _, [] => []
  | next, argument :: rest =>
    if argument.isPositional && argument.index.isNone then
      { argument with index := some next } :: numberPositionals (next + 1) rest
    else argument :: numberPositionals next rest

/-- What a command has from the commands around it. -/
structure Surroundings where
  /-- The arguments that hold below the commands too. -/
  arguments : List Argument := []
  /-- Whether the option for the help text is left out. -/
  withoutHelpFlag : Bool := false
  /-- Whether the subcommand for help texts is left out. -/
  withoutHelpCommand : Bool := false

namespace CommandFace

/-- What is said about a command inside others. Of the arguments from around it, those
are added whose names are not taken yet. -/
def within (face : CommandFace) (outer : Surroundings) : CommandFace :=
  let add (own : List Argument) (argument : Argument) :=
    if own.any (·.id == argument.id) then own else own ++ [argument]
  { face with
    arguments := outer.arguments.foldl add face.arguments
    withoutHelpFlag := face.withoutHelpFlag || outer.withoutHelpFlag
    withoutHelpCommand := face.withoutHelpCommand || outer.withoutHelpCommand }

/-- What a command gives to the commands below it. -/
def surroundings (face : CommandFace) : Surroundings where
  arguments := face.arguments.filter (·.isGlobal)
  withoutHelpFlag := face.withoutHelpFlag
  withoutHelpCommand := face.withoutHelpCommand

/-- The arguments with the options for the help text and the version. -/
def allArguments (face : CommandFace) : List Argument :=
  face.arguments ++
    (if face.withoutHelpFlag then [] else [.helpFlag (face.arguments.any (·.hasLongHelp))]) ++
    (if face.version.isSome then [.versionFlag] else [])

/-- What is said about a command with what it leaves out filled in. -/
def complete (face : CommandFace) : CommandFace :=
  { face with arguments := numberPositionals 1 (face.allArguments.map (·.complete)) }

end CommandFace

namespace Interface

/-- What the subcommand for help texts is for. -/
def helpAbout : String :=
  "Print this message or the help of the given subcommand(s)"

mutual

/-- A command as the subcommand for help texts knows it: by its name alone. -/
def outline : Interface → Interface
  | command face subcommands =>
    command { name := face.name, about := face.about, hidden := face.hidden }
      (outlines subcommands)

/-- Several commands as the subcommand for help texts knows them. -/
def outlines : List Interface → List Interface
  | [] => []
  | subcommand :: rest => subcommand.outline :: outlines rest

end

/-- The subcommand for help texts of a command with some subcommands. -/
def helpCommand (subcommands : List Interface) : Interface :=
  let face := { name := "help", about := some helpAbout }
  command face (outlines subcommands ++ [command face []])

mutual

/-- The interface with what it leaves out filled in, inside other commands. -/
def completeWithin (outer : Surroundings) : Interface → Interface
  | command face subcommands =>
    let face := face.within outer
    let helps := !face.withoutHelpCommand && !subcommands.isEmpty
    command face.complete
      (completeAll face.surroundings helps subcommands ++
        if helps then [helpCommand subcommands] else [])

/-- The subcommands of a command with what they leave out filled in. Where the
subcommand for help texts comes with the command, global arguments are kept from
subcommands of its name. -/
def completeAll (outer : Surroundings) (helps : Bool) : List Interface → List Interface
  | [] => []
  | subcommand :: rest =>
    let inner :=
      if helps && subcommand.face.name == "help" then { outer with arguments := [] } else outer
    subcommand.completeWithin inner :: completeAll outer helps rest

end

/-- The interface with what it leaves out filled in. -/
def complete (interface : Interface) : Interface :=
  interface.completeWithin {}

end Interface
end ShellCompletion
