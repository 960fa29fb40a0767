import ShellCompletion.Data.Shape

/-!
# Configuration

The defaults and output switches of one compilation.
-/

namespace ShellCompletion

/-- Defaults and output switches. The first three are the values of a command's
switches that neither it nor an enclosing command sets. -/
structure Config where
  /-- Accept unambiguous beginnings of subcommand names. -/
  abbreviateCommands : Bool := false
  /-- Accept unambiguous beginnings of long and old-style options. -/
  abbreviateOptions : Bool := false
  /-- Show the options of enclosing commands inside subcommands. -/
  inheritOptions : Bool := false
  /-- Keep offering options that were given already. -/
  multipleOptions : Bool := false
  /-- End the script with a modeline. -/
  vimModeline : Bool := true
  /-- zsh: begin with a `#compdef` line instead of ending with a `compdef` call. -/
  zshCompdef : Bool := true
  /-- fish: use built-in predicates where there are some. -/
  fishFast : Bool := false
  /-- fish: write conditions where they are used instead of sharing variables. -/
  fishInlineConditions : Bool := false
  /-- Texts placed after the header. -/
  includes : List String := []
deriving Repr, DecidableEq, Inhabited

namespace Config

/-- One of the switches: its name, its value, and the configuration with another. -/
structure Switch where
  /-- The name of the switch. -/
  name : String
  /-- The value in a configuration. -/
  get : Config → Bool
  /-- A configuration with another value. -/
  set : Bool → Config → Config

/-- The switches in order. -/
def switches : List Switch := [
  ⟨"abbreviate_commands", abbreviateCommands, fun b c => { c with abbreviateCommands := b }⟩,
  ⟨"abbreviate_options", abbreviateOptions, fun b c => { c with abbreviateOptions := b }⟩,
  ⟨"inherit_options", inheritOptions, fun b c => { c with inheritOptions := b }⟩,
  ⟨"multiple_options", multipleOptions, fun b c => { c with multipleOptions := b }⟩,
  ⟨"vim_modeline", vimModeline, fun b c => { c with vimModeline := b }⟩,
  ⟨"zsh_compdef", zshCompdef, fun b c => { c with zshCompdef := b }⟩,
  ⟨"fish_fast", fishFast, fun b c => { c with fishFast := b }⟩,
  ⟨"fish_inline_conditions", fishInlineConditions,
    fun b c => { c with fishInlineConditions := b }⟩]

/-- The switch with a name. -/
def switch? (name : String) : Option Switch :=
  switches.find? (·.name == name)

/-- The configuration with one more included text. -/
def withInclude (config : Config) (text : String) : Config :=
  { config with includes := config.includes ++ [text] }

/-- How a configuration is read; every field may be left out. -/
def shape : RecordShape Config where
  name := "Config"
  initial := {}
  fields := switches.map (fun switch => .of switch.name false Data.asBool switch.set) ++
    [.of "includes" false (Data.asList Data.asText) fun texts c => { c with includes := texts }]

/-- The configuration as a JSON value, without included texts if there are none. -/
def toJson (config : Config) : Json :=
  .object (switches.map (fun switch => (switch.name, .bool (switch.get config))) ++
    if config.includes.isEmpty then [] else [("includes", .texts config.includes)])

end Config
end ShellCompletion
