import ShellCompletion.CommandOption
import ShellCompletion.Spellings
import ShellCompletion.Text.Blank

/-!
# Option tables

The option strings that a command line may use, each with its arity. A table is
written as a list such as `-f,--all,-a=,-o=?`.
-/

namespace ShellCompletion

/-- An option string with its arity. -/
structure OptionEntry where
  /-- The option string. -/
  option : String
  /-- Whether the option takes a value. -/
  arity : Arity
deriving Repr, DecidableEq

/-- The option strings that are known, earlier ones before later ones, with the
abbreviations that are accepted for them. -/
structure OptionTable where
  /-- The option strings, each once. -/
  entries : List OptionEntry
  /-- The accepted abbreviations. -/
  spellings : Option Spellings := none
deriving Repr, DecidableEq, Inhabited

namespace OptionTable

/-- The entries with one more, unless its option string is there already. -/
def insert (entries : List OptionEntry) (entry : OptionEntry) : List OptionEntry :=
  if entries.any (·.option == entry.option) then entries else entries ++ [entry]

/-- The table of entries of which the first for an option string counts. -/
def ofEntries (entries : List OptionEntry) : OptionTable :=
  ⟨entries.foldl insert [], none⟩

/-- An entry for each string of an option. -/
def entriesOf (option : CommandOption) : List OptionEntry :=
  option.strings.map (⟨·, option.arity⟩)

/-- The table of several options. -/
def ofOptions (options : List CommandOption) : OptionTable :=
  ofEntries (options.flatMap entriesOf)

/-- The option string and arity of an item of an option list. -/
def splitItem (item : String) : OptionEntry :=
  match Text.without? item Arity.optional.suffix with
  | some option => ⟨option, .optional⟩
  | none =>
    match Text.without? item Arity.required.suffix with
    | some option => ⟨option, .required⟩
    | none => ⟨item, .absent⟩

/-- Whether an item of an option list may have this option string. -/
def isListable (option : String) : Bool :=
  Text.beginsWith option "-" && option != "-" && option != "--"

/-- Reads an item of an option list. -/
def readItem (item : String) : Except Error OptionEntry :=
  let entry := splitItem item
  if isListable entry.option then .ok entry else .error (.invalidOption (.badListItem item))

/-- The items of an option list that are not empty. -/
def items (list : String) : List String :=
  (Text.split (· == ',') list).filter (!·.isEmpty)

/-- Reads an option list. -/
def parse (list : String) : Except Error OptionTable :=
  ((items list).mapM readItem).map ofEntries

/-- The item of an option list for an entry. -/
def writeItem (entry : OptionEntry) : String :=
  entry.option ++ entry.arity.suffix

/-- The table as an option list. -/
def render (table : OptionTable) : String :=
  ",".intercalate (table.entries.map writeItem)

/-- The table with or without abbreviations of its long and old-style options. -/
def withAbbreviations (table : OptionTable) (enabled : Bool) : OptionTable :=
  let tokens := (table.entries.map (·.option)).filter (OptionKind.of · != .short)
  { table with
    spellings :=
      if enabled then some (Spellings.ofTokens tokens minOptionBeginning true) else none }

/-- The entry of exactly this option string. -/
def named? (table : OptionTable) (option : String) : Option OptionEntry :=
  table.entries.find? (·.option == option)

/-- The entry of exactly this option string, if it is of the kind. -/
def namedOf? (table : OptionTable) (kind : OptionKind) (option : String) :
    Option OptionEntry :=
  (table.named? option).filter (OptionKind.of ·.option == kind)

/-- The entry of the option string or of the one it abbreviates, if that is of the
kind. -/
def lookup? (table : OptionTable) (kind : OptionKind) (option : String) :
    Option OptionEntry :=
  match table.namedOf? kind option with
  | some entry => some entry
  | none => do
    let spellings ← table.spellings
    let full ← spellings.expand? option
    table.namedOf? kind full

end OptionTable
end ShellCompletion
