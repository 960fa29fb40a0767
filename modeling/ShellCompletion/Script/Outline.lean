import ShellCompletion.Scope.Guards
import ShellCompletion.Script.Emit

/-!
# Outline of a script

What the scripts for all shells have in common: the notice at the top, sections with
empty lines between them, and a completion function for each command.
-/

namespace ShellCompletion

/-- The first line of every script, apart from a line that the shell looks for. -/
def generationNotice : String :=
  "# This script was generated by compforge. Do not edit it by hand."

/-- Sections that are not empty with an empty line between them. -/
def assemble (sections : List String) : String :=
  "\n\n".intercalate (sections.filter (!·.isEmpty)) ++ "\n"

/-- The included texts as sections. -/
def includedSections (config : Config) : List String :=
  config.includes.map Text.trimEnd

/-- The modeline as a section, unless it is switched off. -/
def modelineSection (config : Config) (shell : Shell) : List String :=
  if config.vimModeline then [shell.modeline] else []

/-- The names in order, each made different from those before it. -/
def distinctNames (taken : List String) : List String → List String
  | [] => []
  | base :: rest =>
    let name := Text.fresh taken base
    name :: distinctNames (taken ++ [name]) rest

/-- The completion function of one command. -/
structure CommandFunction where
  /-- The scope of the command. -/
  scope : Scope
  /-- The name of the function. -/
  name : String
  /-- The names of the functions of the subcommands, in order. -/
  targets : List String

namespace CommandTree

/-- The name that a command's function has if no other function has it. -/
def baseFunctionName (tree : CommandTree) (id : Nat) : String :=
  "_" ++ Text.identifier ("_".intercalate (tree.path id))

/-- The commands with the names of their functions, all different. -/
def functionNames (tree : CommandTree) : List (Nat × String) :=
  tree.walk.zip (distinctNames [] (tree.walk.map tree.baseFunctionName))

/-- The name of a command's function. -/
def functionName (tree : CommandTree) (id : Nat) : String :=
  (tree.functionNames.lookup id).getD ""

/-- The completion functions of all commands. -/
def functions (tree : CommandTree) (config : Config) : List CommandFunction :=
  let names := tree.functionNames
  let nameOf := fun id => (names.lookup id).getD ""
  names.map fun (id, name) =>
    ⟨tree.scope config id, name, (tree.children id).map nameOf⟩

end CommandTree

namespace CommandFunction

/-- Whether this is the function of the program itself. -/
def isEntry (function : CommandFunction) : Bool :=
  function.scope.outer.isEmpty

/-- The subcommands with the names of their functions. -/
def dispatches (function : CommandFunction) : List (Subcommand × String) :=
  function.scope.subcommands.zip function.targets

/-- The definition of the function with the blocks of its body, or of one that completes
nothing. -/
def define (function : CommandFunction) (blocks : List String) : String :=
  FunctionStyle.posix.define function.name (Text.indent ("\n\n".intercalate blocks) 2)

/-- The definition of a function that completes nothing. -/
def defineEmpty (function : CommandFunction) : String :=
  FunctionStyle.posix.define function.name "  return 1"

end CommandFunction

/-- How a script with a completion function for each command is written. -/
structure FunctionWriter where
  /-- The shell. -/
  shell : Shell
  /-- The helper functions known in advance. -/
  helpers : Helpers
  /-- What the script begins with. -/
  header : String
  /-- The definition of the completion function of a command. -/
  render : CommandFunction → Emit String
  /-- What makes the shell call the program's function. -/
  registration : String

namespace FunctionWriter

/-- Writes the completion functions of all commands. -/
def functions (writer : FunctionWriter) (tree : CommandTree) (config : Config) :
    Logged (List String × EmitState) :=
  Emit.run writer.helpers ((tree.functions config).mapM writer.render)

/-- The script of a program: helper functions, completion functions, and the
registration. -/
def script (writer : FunctionWriter) (tree : CommandTree) (config : Config) :
    Logged String := do
  let (functions, state) ← writer.functions tree config
  pure (assemble ([writer.header] ++ includedSections config ++ state.helpers.code ++
    functions ++ [writer.registration] ++ modelineSection config writer.shell))

end FunctionWriter

/-- Words as the pattern of a case. -/
def casePattern (words : List String) : String :=
  "|".intercalate (words.map Text.escape)

end ShellCompletion
