import ShellCompletion.Interface.Basic

/-!
# The interface of the compiler

The command line of the compiler itself. Its words are parsed by this interface, and
its own completion script is made from it.
-/

namespace ShellCompletion.Cli

/-- The name of the program. -/
def programName : String := "compforge"

/-- An option that takes a path. -/
def pathOption (id : String) (short : Option Char) (long valueName help : String) :
    Argument where
  id := id
  short := short
  long := some long
  help := some help
  hint := some .filePath
  values := .path
  valueNames := [valueName]

/-- An option that turns a switch on, or sets it to the truth value after its equals
sign. -/
def truthOption (id long help : String) : Argument where
  id := id
  long := some long
  help := some help
  values := .truth
  valueNames := ["BOOL"]
  range := some ⟨0, some 1⟩
  requiresEquals := true
  defaultMissing := some "true"

/-- An option that turns a switch on. -/
def switchOption (id : String) (short : Option Char) (long help : String) : Argument where
  id := id
  short := short
  long := some long
  help := some help
  action := some .setTrue

/-- The specification file. -/
def specification : Argument where
  id := "spec"
  help := some "Specification file (JSON or YAML)"
  hint := some .filePath
  values := .path
  valueNames := ["SPEC"]
  required := true

/-- A shell. -/
def shellArgument (help : String) : Argument where
  id := "shell"
  help := some help
  values := .choice [⟨"bash", none, false⟩, ⟨"zsh", none, false⟩, ⟨"fish", none, false⟩]
  valueNames := ["SHELL"]
  required := true

/-- The command that makes a script. -/
def generateFace : CommandFace where
  name := "generate"
  about := some "Generate a completion script from a specification"
  arguments := [
    shellArgument "Target shell",
    specification,
    pathOption "output" (some 'o') "output" "OUTPUT" "Write the script to a file instead of stdout",
    { switchOption "install" (some 'i') "install"
        "Install the script into the system completion directory" with
      conflicts := ["output"] },
    { id := "program_name"
      short := some 'p'
      long := some "program-name"
      help := some "Program name to complete, instead of the one in the specification"
      valueNames := ["PROGRAM_NAME"] },
    pathOption "config" (some 'c') "config" "CONFIG" "Configuration file (YAML or JSON)",
    truthOption "abbreviate_commands" "abbreviate-commands"
      "Accept unambiguous prefixes of subcommands",
    truthOption "abbreviate_options" "abbreviate-options"
      "Accept unambiguous prefixes of long options",
    truthOption "inherit_options" "inherit-options"
      "Make parent options available in subcommands",
    truthOption "repeatable_options" "repeatable-options"
      "Keep suggesting options that were already given",
    truthOption "zsh_compdef" "zsh-compdef"
      "zsh: use a \x60#compdef\x60 header instead of calling \x60compdef\x60",
    switchOption "fish_fast" none "fish-fast"
      "fish: use builtin predicates instead of the parsing helper",
    switchOption "fish_inline_conditions" none "fish-inline-conditions"
      "fish: write conditions inline instead of sharing variables",
    { pathOption "include_files" none "include-file" "FILE"
        "Insert the contents of a file after the header" with
      action := some .append },
    switchOption "no_vim_modeline" none "no-vim-modeline" "Do not append a vim modeline"]

/-- The command that writes a specification in another format. -/
def convertFace : CommandFace where
  name := "convert"
  about := some "Convert a specification between JSON and YAML"
  arguments := [
    specification,
    { id := "to"
      short := some 't'
      long := some "to"
      help := some "Output format"
      values := .choice [⟨"json", none, false⟩, ⟨"yaml", none, false⟩]
      valueNames := ["TO"]
      required := true },
    pathOption "output" (some 'o') "output" "OUTPUT"
      "Write the document to a file instead of stdout"]

/-- The command that makes the script for the compiler itself. -/
def completionFace : CommandFace where
  name := "completion"
  about := some "Print the completion script of compforge itself"
  hidden := true
  arguments := [shellArgument "Shell to generate completions for"]

/-- The interface of the compiler. -/
def interface : Interface :=
  .command {
    name := programName
    about := some "compforge - Shell completion script compiler"
    version := some "0.3.0"
    needsSubcommand := true
    arguments := [
      { switchOption "verbose" (some 'v') "verbose" "Enable verbose logging" with
        isGlobal := true }] }
    [.command generateFace [], .command convertFace [], .command completionFace []]

end ShellCompletion.Cli
