import ShellCompletion.Completion.Encoding
import ShellCompletion.Condition
import ShellCompletion.Text.Quoted

/-!
# Errors

What can go wrong between a specification and its script, by cause. Every error has
a kind, which fixes the beginning of its text.
-/

namespace ShellCompletion

/-- Why an option cannot be declared or listed. -/
inductive OptionFault where
  /-- It has no option strings. -/
  | noStrings
  /-- Only some of its strings begin with a dash. -/
  | mixed (strings : List String)
  /-- A string contains white space. -/
  | blank (string : String)
  /-- A string does not begin with a dash. -/
  | undashed (string : String)
  /-- A string consists of dashes alone or begins with three of them. -/
  | malformed (string : String)
  /-- A value name for an option without a value. -/
  | needlessMetavar (name : String)
  /-- A completion for an option without a value. -/
  | needlessCompletion (name : String)
  /-- The command has another option with the string. -/
  | declaredTwice (string command : String)
  /-- An item of an option list is no option. -/
  | badListItem (item : String)
deriving Repr, DecidableEq

/-- The text of an option fault. -/
def OptionFault.message : OptionFault → String
  | noStrings => "empty set of option strings"
  | mixed strings => " ".intercalate strings ++ ": mixes positional and option strings"
  | blank string => s!"'{string}': option strings must not contain whitespace"
  | undashed string => s!"'{string}': option strings must start with '-'"
  | malformed string => s!"'{string}': not a valid option string"
  | needlessMetavar name => s!"{name}: an option without arguments cannot have a metavar"
  | needlessCompletion name => s!"{name}: an option without arguments cannot be completed"
  | declaredTwice string command => s!"'{string}' is declared twice in '{command}'"
  | badListItem item => s!"invalid option in option list: '{item}'"

/-- Why a specification is not acceptable. -/
inductive ValidationFault where
  /-- There are no commands. -/
  | noCommands
  /-- The program's path has not exactly one word. -/
  | badProgramName (path : String)
  /-- A second path without an enclosing command. -/
  | secondProgram (path : String)
  /-- The enclosing command of a path does not exist. -/
  | missingParent (path : String)
  /-- The enclosing command has a subcommand that answers to the name. -/
  | declaredTwice (name command : String)
  /-- A positional has another number than its place asks for. -/
  | wrongNumber (path metavar : String) (number expected : Nat)
  /-- A command has an empty name. -/
  | emptyName (command : String)
  /-- A command name holds characters that names must not hold. -/
  | badName (name : String)
  /-- Two subcommands of a command share a name. -/
  | sharedName (name command : String)
  /-- The name of a value is empty or has several lines. -/
  | badMetavar (metavar command : String)
deriving Repr, DecidableEq

/-- The text of a validation fault. -/
def ValidationFault.message : ValidationFault → String
  | noCommands => "no commands defined"
  | badProgramName path => s!"invalid program name: '{path}'"
  | secondProgram path => s!"more than one program defined: '{path}'"
  | missingParent path => s!"parent command of '{path}' is not defined"
  | declaredTwice name command => s!"subcommand '{name}' is declared twice in '{command}'"
  | wrongNumber path metavar number expected =>
    s!"'{path}': positional '{metavar}' has number {number}, expected {expected}"
  | emptyName command => s!"Command name cannot be empty in '{command}'"
  | badName name =>
    s!"Invalid command name '{name}': must not start with '-' or contain whitespace or " ++
      "shell metacharacters"
  | sharedName name command => s!"Duplicate subcommand name '{name}' in '{command}'"
  | badMetavar metavar command => s!"Invalid metavar {Text.quoted metavar} in '{command}'"

/-- Why a file operation fails. -/
inductive FileFault where
  /-- There is no such file. -/
  | missing
  /-- A file stands where a directory is to be made. -/
  | exists
  /-- A part of the path is no directory. -/
  | notDirectory
  /-- The path is a directory. -/
  | isDirectory
  /-- The name is longer than the file system allows. -/
  | nameTooLong
  /-- The content is not UTF-8. -/
  | notText
  /-- The path holds a zero byte. -/
  | zeroByte
deriving Repr, DecidableEq

/-- The text of a file fault. -/
def FileFault.message : FileFault → String
  | missing => "No such file or directory (os error 2)"
  | .exists => "File exists (os error 17)"
  | notDirectory => "Not a directory (os error 20)"
  | isDirectory => "Is a directory (os error 21)"
  | nameTooLong => "File name too long (os error 36)"
  | notText => "stream did not contain valid UTF-8"
  | zeroByte => "file name contained an unexpected NUL byte"

/-- The formats of specifications. -/
inductive Format where
  /-- One JSON value. -/
  | json
  /-- A stream of YAML documents. -/
  | yaml
deriving Repr, DecidableEq, Inhabited

/-- The name of the format in messages. -/
def Format.title : Format → String
  | json => "JSON"
  | yaml => "YAML"

/-- Why a specification or configuration cannot be read. A text that is not even
well-formed is reported without saying how. -/
inductive ConfigFault where
  /-- The text is not of the format. -/
  | malformed (format : Format)
  /-- The text is of the format, but no specification. -/
  | wrongShape (format : Format)
  /-- A configuration file does not hold a configuration. -/
  | invalidConfig (path : String)
  /-- A file cannot be read; `use` says what it is for, with a blank after it. -/
  | unreadable (use path : String) (fault : FileFault)
deriving Repr, DecidableEq

/-- The text of a configuration fault. -/
def ConfigFault.message : ConfigFault → String
  | malformed format => s!"{format.title} parse error: *"
  | wrongShape format =>
    s!"{format.title} parse error: data did not match any variant of untagged enum DocumentSet"
  | invalidConfig path => s!"Invalid config file '{path}': *"
  | unreadable use path fault => s!"Failed to read {use}file '{path}': {fault.message}"

/-- What goes wrong between a specification and its script. -/
inductive Error where
  /-- A malformed option. -/
  | invalidOption (fault : OptionFault)
  /-- Both choices and another completion for one argument. -/
  | ambiguousCompletion (name : String)
  /-- A second subcommand slot of one command. -/
  | duplicateSubcommands (command : String)
  /-- A condition naming an option that is not in scope. -/
  | unresolvedOption (command option : String)
  /-- A malformed condition of an argument. -/
  | invalidCondition (owner : String) (fault : ConditionError)
  /-- A malformed completion of an argument. -/
  | unknownCompletion (owner : String) (fault : CompletionError)
  /-- An argument with an action that has no counterpart. -/
  | unsupported (argument action : String)
  /-- An unacceptable specification. -/
  | validation (fault : ValidationFault)
  /-- An unreadable specification or configuration. -/
  | config (fault : ConfigFault)
  /-- A file that cannot be written. -/
  | io (fault : FileFault)
  /-- A helper function that no script writer defines. -/
  | internal (reason : String)

/-- The kinds of errors. -/
inductive ErrorKind where
  /-- A malformed option. -/
  | invalidOption
  /-- Both choices and another completion. -/
  | ambiguousCompletion
  /-- A second subcommand slot. -/
  | duplicateSubcommands
  /-- A condition naming the given option, which is not in scope. -/
  | unresolvedOption (option : String)
  /-- A malformed condition. -/
  | invalidCondition
  /-- A malformed completion. -/
  | unknownCompletion
  /-- Something that cannot be expressed. -/
  | unsupported
  /-- An unacceptable specification. -/
  | validation
  /-- An unreadable specification or configuration. -/
  | config
  /-- A failed file operation. -/
  | io
  /-- A fault of the compiler itself. -/
  | internal
deriving Repr, DecidableEq

namespace ErrorKind

/-- The text of an error of this kind about `detail`. -/
def message (detail : String) : ErrorKind → String
  | invalidOption => s!"Invalid option: {detail}"
  | ambiguousCompletion =>
    s!"Ambiguous completion for {detail}: choices and a custom completion were both given"
  | duplicateSubcommands => s!"Command '{detail}' already has subcommands"
  | unresolvedOption option =>
    s!"Option '{option}' referenced by a condition in '{detail}' does not exist"
  | invalidCondition => s!"Invalid condition: {detail}"
  | unknownCompletion => s!"Unknown completion: {detail}"
  | unsupported => s!"Unsupported: {detail}"
  | validation => s!"Validation error: {detail}"
  | config => s!"Configuration error: {detail}"
  | io => s!"IO error: {detail}"
  | internal => s!"Internal error: {detail}"

/-- Whether errors of this kind are faults of the specification itself. -/
def isSpecification : ErrorKind → Bool
  | unsupported | config | io | internal => false
  | _ => true

end ErrorKind

namespace Error

/-- The kind of an error. -/
def kind : Error → ErrorKind
  | invalidOption _ => .invalidOption
  | ambiguousCompletion _ => .ambiguousCompletion
  | duplicateSubcommands _ => .duplicateSubcommands
  | unresolvedOption _ option => .unresolvedOption option
  | invalidCondition _ _ => .invalidCondition
  | unknownCompletion _ _ => .unknownCompletion
  | unsupported _ _ => .unsupported
  | validation _ => .validation
  | config _ => .config
  | io _ => .io
  | internal _ => .internal

/-- What an error is about. -/
def detail : Error → String
  | invalidOption fault => fault.message
  | ambiguousCompletion name => name
  | duplicateSubcommands command => command
  | unresolvedOption command _ => command
  | invalidCondition owner fault => s!"{owner}: {fault.message}"
  | unknownCompletion owner fault => s!"{owner}: {fault.message}"
  | unsupported argument action => s!"{argument}: action {action}"
  | validation fault => fault.message
  | config fault => fault.message
  | io fault => fault.message
  | internal reason => reason

/-- The text of an error. -/
def message (error : Error) : String :=
  error.kind.message error.detail

end Error
end ShellCompletion
