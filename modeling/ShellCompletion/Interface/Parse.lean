import ShellCompletion.Interface.Complete
import ShellCompletion.Text.Affix

/-!
# Parsing words by an interface

The words after the name of a program are taken apart by its complete interface. A
value is looked at only when the next argument begins or the words end, so what is
wrong with it may be told after what is wrong with the word that follows it.
-/

namespace ShellCompletion

/-- Why words are not accepted, or what is shown instead of running the program. -/
inductive UsageFault where
  /-- A value that the argument cannot have, or none where there must be one. -/
  | invalidValue
  /-- An option or word that the command does not know. -/
  | unknownArgument
  /-- A word that names no subcommand. -/
  | invalidSubcommand
  /-- An option whose value must follow an equals sign has none. -/
  | noEquals
  /-- Arguments that may not be given together, or one that may be given once. -/
  | argumentConflict
  /-- A value for an argument that takes none, or more than it takes. -/
  | tooManyValues
  /-- Fewer values than the argument takes. -/
  | tooFewValues
  /-- Another number of values than the one that the argument takes. -/
  | wrongNumberOfValues
  /-- An argument that must be given is missing. -/
  | missingRequiredArgument
  /-- A subcommand must be given. -/
  | missingSubcommand
  /-- The help text was asked for. -/
  | helpAsked
  /-- The version was asked for. -/
  | versionAsked
  /-- There are no words where some are needed, so the help text is shown. -/
  | nothingGiven
deriving Repr, DecidableEq

/-- The values of arguments by their names; a switch that is on has the value `true`. -/
abbrev ArgumentValues := List (String × List String)

/-- What was found for each command from the program down to a subcommand. -/
abbrev Matches := List (String × ArgumentValues)

/-- How far the words of one command have been read. -/
structure WordState where
  /-- The values of the arguments that are done. -/
  found : ArgumentValues := []
  /-- The argument that is read now, with its values so far. -/
  pending : Option (Argument × List String) := none
  /-- Whether the next word may be a value of an option. -/
  collecting : Bool := false
  /-- The place of the next positional argument. -/
  place : Nat := 1
  /-- Whether no more options may follow. -/
  trailing : Bool := false

namespace Argument

/-- Whether the argument may have a value. -/
def accepts (argument : Argument) (value : String) : Bool :=
  match argument.values with
  | .text => true
  | .path => !value.isEmpty
  | .choice values => values.any (·.name == value)

/-- What is wrong with a number of values. -/
def countFault? (argument : Argument) (count : Nat) : Option UsageFault :=
  let range := argument.effectiveRange
  if count == 0 && 0 < range.least then some .invalidValue
  else if range.most == some range.least && count != range.least then
    some .wrongNumberOfValues
  else if count < range.least then some .tooFewValues
  else if range.greatest < count then some .tooManyValues
  else none

/-- Whether the argument answers to a letter. -/
def hasLetter (argument : Argument) (letter : Char) : Bool :=
  argument.short.any fun short => short == letter || argument.shortAliases.contains letter

/-- Whether the argument answers to a long name. -/
def hasLong (argument : Argument) (name : String) : Bool :=
  argument.long.any fun long => long == name || argument.longAliases.contains name

end Argument

namespace WordState

/-- Keeps the values of an argument that has been read. -/
def record (state : WordState) (argument : Argument) (values : List String) :
    Except UsageFault WordState :=
  match argument.countFault? values.length with
  | some fault => .error fault
  | none =>
    let values := if values.isEmpty then argument.defaultMissing.toList else values
    let before := state.found.lookup argument.id
    let others := state.found.filter (·.1 != argument.id)
    let keep (values : List String) : WordState :=
      { state with found := others ++ [(argument.id, values)] }
    match argument.effectiveAction with
    | .help => .error .helpAsked
    | .version => .error .versionAsked
    | .append =>
      if values.all argument.accepts then .ok (keep (before.getD [] ++ values))
      else .error .invalidValue
    | .count => .ok (keep (before.getD [] ++ ["true"]))
    | .set =>
      if before.isSome then .error .argumentConflict
      else if values.all argument.accepts then .ok (keep values)
      else .error .invalidValue
    | .setTrue => if before.isSome then .error .argumentConflict else .ok (keep ["true"])
    | .setFalse => if before.isSome then .error .argumentConflict else .ok (keep ["false"])

/-- Keeps the values of the argument that is read now, if there is one. -/
def settle (state : WordState) : Except UsageFault WordState :=
  match state.pending with
  | none => .ok state
  | some (argument, values) =>
    { state with pending := none, collecting := false }.record argument values

/-- Keeps the values of one argument more. -/
def add (state : WordState) (argument : Argument) (values : List String) :
    Except UsageFault WordState := do
  return { ← (← state.settle).record argument values with collecting := false }

/-- Begins an option that may take the value that stands in its word. -/
def addOption (state : WordState) (argument : Argument) (value : Option String) :
    Except UsageFault WordState :=
  match value with
  | some value => state.add argument [value]
  | none => do
    return { ← state.settle with pending := some (argument, []), collecting := true }

/-- Takes a word as a value of the option that is read now. -/
def addValue (state : WordState) (word : String) : WordState :=
  match state.pending with
  | none => state
  | some (argument, values) =>
    let values := values ++ [word]
    { state with
      pending := some (argument, values)
      collecting := values.length < argument.effectiveRange.greatest }

/-- Reads an option by its long name. -/
def readLong (state : WordState) (face : CommandFace) (text : String) :
    Except UsageFault WordState :=
  let (name, value) := match Text.cutAt? '=' text with
    | some (name, value) => (name, some value)
    | none => (text, none)
  match face.arguments.find? (·.hasLong name) with
  | none => .error .unknownArgument
  | some argument =>
    if !argument.effectiveRange.takesValues then
      if value.isSome then .error .tooManyValues else state.add argument []
    else if argument.requiresEquals && value.isNone then
      if argument.effectiveRange.least == 0 then state.add argument [] else .error .noEquals
    else state.addOption argument value

/-- Reads options by their letters; what follows the letter of an option with a value is
its value. -/
def readShort (face : CommandFace) : WordState → List Char → Except UsageFault WordState
  | state, [] => .ok state
  | state, letter :: rest =>
    match face.arguments.find? (·.hasLetter letter) with
    | none => .error .unknownArgument
    | some argument =>
      if !argument.effectiveRange.takesValues then
        (state.add argument []).bind (readShort face · rest)
      else
        match rest with
        | '=' :: value => state.addOption argument (some (String.ofList value))
        | rest =>
          if argument.requiresEquals then
            if argument.effectiveRange.least != 0 then .error .noEquals
            else (state.add argument []).bind (readShort face · rest)
          else
            state.addOption argument (if rest.isEmpty then none else some (String.ofList rest))

/-- Reads a positional argument. -/
def readPositional (state : WordState) (argument : Argument) (word : String) :
    Except UsageFault WordState := do
  return { ← state.settle with
    pending := some (argument, [word]), collecting := false, place := state.place + 1 }

end WordState

namespace CommandFace

/-- Whether two arguments that were found exclude each other. -/
def hasConflict (face : CommandFace) (found : ArgumentValues) : Bool :=
  face.arguments.any fun argument =>
    (found.lookup argument.id).isSome &&
      argument.conflicts.any fun other => (found.lookup other).isSome

/-- What was found for a command, if it is all that must be. -/
def finish (face : CommandFace) (hasSubcommand : Bool) (state : WordState) :
    Except UsageFault ArgumentValues := do
  let state ← state.settle
  if face.needsSubcommand && !hasSubcommand then
    throw (if state.found.isEmpty then .nothingGiven else .missingSubcommand)
  if face.hasConflict state.found then throw .argumentConflict
  if face.arguments.any fun argument =>
      argument.required && (state.found.lookup argument.id).isNone then
    throw .missingRequiredArgument
  return state.found

end CommandFace

namespace Interface

/-- The subcommand that answers to a word. -/
def find? (interface : Interface) (word : String) : Option Interface :=
  interface.subcommands.find? fun subcommand =>
    subcommand.face.name == word || subcommand.face.aliases.contains word

/-- Whether the subcommand for help texts comes with the command. -/
def helps (interface : Interface) : Bool :=
  !interface.face.withoutHelpCommand && !interface.subcommands.isEmpty

/-- What asking for the help text of a subcommand by its path leads to. The help text of
the subcommand for help texts has none below it. -/
def help (interface : Interface) : List String → UsageFault
  | [] => .helpAsked
  | word :: rest =>
    match interface.find? word with
    | none => .invalidSubcommand
    | some subcommand =>
      if interface.helps && subcommand.face.name == "help" then
        if rest.isEmpty then .helpAsked else .invalidSubcommand
      else subcommand.help rest

/-- What is wrong with a word that is no argument of the command. -/
def strayFault (interface : Interface) (trailing : Bool) (word : String) : UsageFault :=
  if trailing && (interface.find? word).isSome then .unknownArgument
  else if interface.subcommands.isEmpty || interface.face.arguments.any (·.isPositional) then
    .unknownArgument
  else .invalidSubcommand

/-- Reads a word that is neither a subcommand nor an option. -/
def readWord (interface : Interface) (state : WordState) (word : String) :
    Except UsageFault WordState :=
  if state.collecting && !state.trailing then .ok (state.addValue word)
  else
    match interface.face.arguments.find? fun argument =>
        argument.isPositional && argument.index == some state.place with
    | some argument => state.readPositional argument word
    | none => .error (interface.strayFault state.trailing word)

/-- Reads the words of a command, which may end with those of a subcommand. -/
def readWords (interface : Interface) (state : WordState) :
    List String → Except UsageFault Matches
  | [] => do
    return [(interface.face.name, ← interface.face.finish false state)]
  | word :: rest => do
    if state.trailing then interface.readWords (← interface.readWord state word) rest
    else
      match if state.collecting then none else interface.find? word with
      | some subcommand =>
        if interface.helps && subcommand.face.name == "help" then throw (interface.help rest)
        let inner ← subcommand.readWords {} rest
        return (interface.face.name, ← interface.face.finish true state) :: inner
      | none =>
        match word.toList with
        | ['-', '-'] => interface.readWords { state with trailing := true } rest
        | '-' :: '-' :: text =>
          interface.readWords (← state.readLong interface.face (String.ofList text)) rest
        | '-' :: letter :: letters =>
          interface.readWords (← WordState.readShort interface.face state (letter :: letters)) rest
        | _ => interface.readWords (← interface.readWord state word) rest

/-- Takes the words after the name of a program apart by its interface. -/
def parse (interface : Interface) (words : List String) : Except UsageFault Matches :=
  interface.complete.readWords {} words

end Interface
end ShellCompletion
