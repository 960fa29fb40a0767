import ShellCompletion.Cli.Files
import ShellCompletion.Cli.Request
import ShellCompletion.ConfigFile
import ShellCompletion.Interface.Tree
import ShellCompletion.Script.Basic
import ShellCompletion.Specification

/-!
# Running the compiler

What each request does with the files it names. Nothing is written unless everything
before has succeeded.
-/

namespace ShellCompletion.Cli

/-- A run on files, which may warn and may fail. -/
abbrev Run (m : Type → Type) (α : Type) := ExceptT Error (StateT (List Warning) m) α

variable {m : Type → Type} [Monad m]

/-- A computation without files as a part of a run. -/
def Run.ofLogged {α : Type} (action : Logged α) : Run m α := do
  let (warnings, result) := action.outcome
  modify (· ++ warnings)
  match result with
  | .ok value => pure value
  | .error error => throw error

/-- The text of a file; `use` says what it is for. -/
def readFile (files : Files m) (use path : String) : Run m String := do
  match ← (files.read path : m _) with
  | .ok text => pure text
  | .error fault => throw (.config (.unreadable use path fault))

/-- The tree that a specification file describes. A name that suggests no format is that
of a YAML file. -/
def readSpecification (files : Files m) (path : String) : Run m CommandTree := do
  let text ← readFile files "" path
  Run.ofLogged (CommandTree.parse ((Format.ofPath? path).getD .yaml) text)

/-- The configuration of a configuration file. -/
def readConfig (files : Files m) (path : String) : Run m Config := do
  match Config.ofYaml? (← readFile files "config " path) with
  | some config => pure config
  | none => throw (.config (.invalidConfig path))

/-- The configuration with a switch set. -/
def setSwitch (config : Config) (name : String) (value : Bool) : Config :=
  match Config.switch? name with
  | some switch => switch.set value config
  | none => config

/-- The configuration that a request for a script asks for. -/
def GenerateRequest.configuration (request : GenerateRequest) (files : Files m) :
    Run m Config := do
  let config ← match request.config with
    | some path => readConfig files path
    | none => pure {}
  let config := request.switches.foldl (fun config (name, value) =>
    setSwitch config name value) config
  request.includes.foldlM (fun config path => do
    return config.withInclude (← readFile files "include " path)) config

/-- Where a shell looks for scripts. -/
def installDirectory : Shell → String
  | .bash => "/usr/share/bash-completion/completions"
  | .zsh => "/usr/share/zsh/site-functions"
  | .fish => "/usr/share/fish/vendor_completions.d"

/-- Writes a text to a file, or to the output if there is none. -/
def writeOutput (files : Files m) (path : Option String) (text : String) : Run m Unit := do
  match path with
  | none => (files.print text : m _)
  | some path =>
    match ← (files.write path text : m _) with
    | .ok () => pure ()
    | .error fault => throw (.io fault)

/-- Makes a script. -/
def GenerateRequest.run (request : GenerateRequest) (files : Files m) : Run m Unit := do
  let tree ← readSpecification files request.specification
  let tree := match request.programName with
    | some name => tree.rename name
    | none => tree
  let config ← request.configuration files
  Run.ofLogged (tree.validate true config)
  let script ← Run.ofLogged (tree.script request.shell config)
  let path :=
    if request.install then
      some (installDirectory request.shell ++ "/" ++
        request.shell.completionFile tree.programName)
    else request.output
  writeOutput files path script

/-- Writes a specification in another format. -/
def ConvertRequest.run (request : ConvertRequest) (files : Files m) : Run m Unit := do
  let tree ← readSpecification files request.specification
  let text := tree.render request.format
  writeOutput files request.output (if text.endsWith "\n" then text else text ++ "\n")

/-- The script for the compiler itself. -/
def ownScript (shell : Shell) : Logged String := do
  (← CommandTree.ofInterface interface).script shell {}

/-- Does what a request asks for. -/
def Request.run (request : Request) (files : Files m) : Run m Unit :=
  match request with
  | .generate request => request.run files
  | .convert request => request.run files
  | .completion shell => do writeOutput files none (← Run.ofLogged (ownScript shell))

/-- The result of a run with the warnings it gave. -/
def Run.outcome {α : Type} (run : Run m α) : m (Except Error α × List Warning) :=
  (ExceptT.run run).run []

end ShellCompletion.Cli
