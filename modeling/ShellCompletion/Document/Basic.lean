import ShellCompletion.Arity
import ShellCompletion.Json.Printer
import ShellCompletion.Tristate

/-!
# Command documents

A specification is a list of documents, one for each command, which names the command
by its path and says what it declares. Fields that have their default value may be
left out, and are left out when a document is written.
-/

namespace ShellCompletion

/-- The subcommand slot of a document. -/
structure SlotDocument where
  /-- The name of the slot. -/
  metavar : String := "command"
  /-- The description. -/
  help : String := ""
deriving DecidableEq

/-- An option of a document. -/
structure OptionDocument where
  /-- The option strings. -/
  optionStrings : List String := []
  /-- The name of the value. -/
  metavar : Option String := none
  /-- The description. -/
  help : String := ""
  /-- Whether the option takes a value. -/
  takesArgs : Arity := .required
  /-- The group of options of which at most one may be given. -/
  group : Option String := none
  /-- Whether the option is offered again once it was given. -/
  multipleOption : Tristate := .inherit
  /-- The list form of the completion. -/
  complete : Option (List Json) := none
  /-- The text of the condition. -/
  when : Option String := none

/-- A positional argument of a document. -/
structure PositionalDocument where
  /-- The number, counted from one at the program. -/
  number : Nat := 0
  /-- The name of the value. -/
  metavar : String := ""
  /-- The description. -/
  help : String := ""
  /-- Whether the argument stands for every position from its own onward. -/
  repeatable : Bool := false
  /-- The list form of the completion. -/
  complete : Option (List Json) := none
  /-- The text of the condition. -/
  when : Option String := none

/-- A document: a command with its path. -/
structure CommandDocument where
  /-- The names from the program down to the command, with blanks between them. -/
  prog : String := ""
  /-- Other names. -/
  aliases : List String := []
  /-- The description. -/
  help : String := ""
  /-- Whether unambiguous beginnings of subcommand names are accepted. -/
  abbreviateCommands : Tristate := .inherit
  /-- Whether unambiguous beginnings of options are accepted. -/
  abbreviateOptions : Tristate := .inherit
  /-- Whether the options of enclosing commands are shown. -/
  inheritOptions : Tristate := .inherit
  /-- The slot for subcommands, where it is not the default one. -/
  subcommands : Option SlotDocument := none
  /-- The options. -/
  options : List OptionDocument := []
  /-- The positional arguments. -/
  positionals : List PositionalDocument := []

/-- How the list form of a completion is read. -/
def completeOfData : Data → Except ShapeError (Option (List Json)) :=
  Data.asOptional (Data.asList Data.toJson)

/-- How a subcommand slot is read. -/
def SlotDocument.shape : RecordShape SlotDocument where
  name := "SubcommandsDocument"
  initial := {}
  fields := [
    .of "metavar" false Data.asText fun text d => { d with metavar := text },
    .of "help" false Data.asText fun text d => { d with help := text }]

/-- How an option is read. -/
def OptionDocument.shape : RecordShape OptionDocument where
  name := "OptionDocument"
  initial := {}
  fields := [
    .of "option_strings" true (Data.asList Data.asText)
      fun texts d => { d with optionStrings := texts },
    .of "metavar" false (Data.asOptional Data.asText) fun text d => { d with metavar := text },
    .of "help" false Data.asText fun text d => { d with help := text },
    .of "takes_args" false Arity.ofData fun arity d => { d with takesArgs := arity },
    .of "group" false (Data.asOptional Data.asText) fun text d => { d with group := text },
    { FieldShape.of "multiple_option" false Tristate.ofData
        (fun switch (d : OptionDocument) => { d with multipleOption := switch }) with
      alternative := some "repeatable" },
    .of "complete" false completeOfData fun list d => { d with complete := list },
    .of "when" false (Data.asOptional Data.asText) fun text d => { d with when := text }]

/-- How a positional argument is read. -/
def PositionalDocument.shape : RecordShape PositionalDocument where
  name := "PositionalDocument"
  initial := {}
  fields := [
    .of "number" true Data.asCount fun number d => { d with number := number },
    .of "metavar" true Data.asText fun text d => { d with metavar := text },
    .of "help" false Data.asText fun text d => { d with help := text },
    .of "repeatable" false Data.asBool fun value d => { d with repeatable := value },
    .of "complete" false completeOfData fun list d => { d with complete := list },
    .of "when" false (Data.asOptional Data.asText) fun text d => { d with when := text }]

/-- How a document is read. -/
def CommandDocument.shape : RecordShape CommandDocument where
  name := "CommandDocument"
  initial := {}
  fields := [
    .of "prog" true Data.asText fun text d => { d with prog := text },
    .of "aliases" false (Data.asList Data.asText) fun texts d => { d with aliases := texts },
    .of "help" false Data.asText fun text d => { d with help := text },
    .of "abbreviate_commands" false Tristate.ofData
      fun switch d => { d with abbreviateCommands := switch },
    .of "abbreviate_options" false Tristate.ofData
      fun switch d => { d with abbreviateOptions := switch },
    .of "inherit_options" false Tristate.ofData
      fun switch d => { d with inheritOptions := switch },
    .of "subcommands" false (Data.asOptional SlotDocument.shape.read)
      fun slot d => { d with subcommands := slot },
    .of "options" false (Data.asList OptionDocument.shape.read)
      fun options d => { d with options := options },
    .of "positionals" false (Data.asList PositionalDocument.shape.read)
      fun positionals d => { d with positionals := positionals }]

/-- Reads the documents of a specification: a list of them, or a single one. -/
def documentsOfData (data : Data) : Except ShapeError (List CommandDocument) :=
  match data.asList CommandDocument.shape.read with
  | .ok documents => .ok documents
  | .error _ => (CommandDocument.shape.read data).map fun document => [document]

/-- The entry of a text unless it is empty. -/
def textEntry (name value : String) : List (String × Json) :=
  if value.isEmpty then [] else [(name, .text value)]

/-- The entry of a text if there is one. -/
def optionalEntry (name : String) (value : Option String) : List (String × Json) :=
  value.toList.map fun text => (name, .text text)

/-- The entry of a switch unless it is left to the enclosing scope. -/
def switchEntry (name : String) (switch : Tristate) : List (String × Json) :=
  if switch.isInherit then [] else [(name, switch.toJson)]

/-- The entry of a list unless it is empty. -/
def listEntry (name : String) (items : List Json) : List (String × Json) :=
  if items.isEmpty then [] else [(name, .list items)]

/-- The entry of a completion if there is one. -/
def completeEntry (complete : Option (List Json)) : List (String × Json) :=
  complete.toList.map fun items => ("complete", .list items)

/-- The slot as a JSON value. -/
def SlotDocument.toJson (slot : SlotDocument) : Json :=
  .object (("metavar", .text slot.metavar) :: textEntry "help" slot.help)

/-- The option as a JSON value. -/
def OptionDocument.toJson (option : OptionDocument) : Json :=
  .object (("option_strings", .texts option.optionStrings) ::
    optionalEntry "metavar" option.metavar ++ textEntry "help" option.help ++
    (if option.takesArgs == .required then [] else [("takes_args", option.takesArgs.toJson)]) ++
    optionalEntry "group" option.group ++ switchEntry "multiple_option" option.multipleOption ++
    completeEntry option.complete ++ optionalEntry "when" option.when)

/-- The positional argument as a JSON value. -/
def PositionalDocument.toJson (positional : PositionalDocument) : Json :=
  .object (("number", .int positional.number) :: ("metavar", .text positional.metavar) ::
    textEntry "help" positional.help ++
    (if positional.repeatable then [("repeatable", .bool true)] else []) ++
    completeEntry positional.complete ++ optionalEntry "when" positional.when)

/-- The document as a JSON value. -/
def CommandDocument.toJson (document : CommandDocument) : Json :=
  .object (("prog", .text document.prog) ::
    listEntry "aliases" (document.aliases.map .text) ++ textEntry "help" document.help ++
    switchEntry "abbreviate_commands" document.abbreviateCommands ++
    switchEntry "abbreviate_options" document.abbreviateOptions ++
    switchEntry "inherit_options" document.inheritOptions ++
    document.subcommands.toList.map (fun slot => ("subcommands", slot.toJson)) ++
    listEntry "options" (document.options.map (·.toJson)) ++
    listEntry "positionals" (document.positionals.map (·.toJson)))

/-- Whether two list forms say the same. -/
def sameComplete : Option (List Json) → Option (List Json) → Bool
  | none, none => true
  | some a, some b => Json.sameItems a b
  | _, _ => false

/-- Whether the items of two lists are the same one by one. -/
def sameList {α : Type} (same : α → α → Bool) (a b : List α) : Bool :=
  a.length == b.length && (a.zip b).all fun (x, y) => same x y

/-- Whether two options say the same. -/
def OptionDocument.same (a b : OptionDocument) : Bool :=
  a.optionStrings == b.optionStrings && a.metavar == b.metavar && a.help == b.help &&
    a.takesArgs == b.takesArgs && a.group == b.group &&
    a.multipleOption == b.multipleOption && sameComplete a.complete b.complete &&
    a.when == b.when

/-- Whether two positional arguments say the same. -/
def PositionalDocument.same (a b : PositionalDocument) : Bool :=
  a.number == b.number && a.metavar == b.metavar && a.help == b.help &&
    a.repeatable == b.repeatable && sameComplete a.complete b.complete && a.when == b.when

/-- Whether two documents say the same. -/
def CommandDocument.same (a b : CommandDocument) : Bool :=
  a.prog == b.prog && a.aliases == b.aliases && a.help == b.help &&
    a.abbreviateCommands == b.abbreviateCommands &&
    a.abbreviateOptions == b.abbreviateOptions && a.inheritOptions == b.inheritOptions &&
    a.subcommands == b.subcommands && sameList OptionDocument.same a.options b.options &&
    sameList PositionalDocument.same a.positionals b.positionals

end ShellCompletion
