import ShellCompletion.CommandLine.Table

/-!
# Parsed command lines

The words before the cursor are read one by one against an option table. What the
next word may be is the only thing that has to be remembered between words.
-/

namespace ShellCompletion

/-- An option found on a command line. -/
structure Occurrence where
  /-- The full option string, whatever abbreviation was typed. -/
  option : String
  /-- The value, if there is one. -/
  value : Option String
deriving Repr, DecidableEq

/-- What the words of a command line were found to be. -/
structure ParsedLine where
  /-- The positional words in order. -/
  positionals : List String := []
  /-- The options in order. -/
  occurrences : List Occurrence := []
deriving Repr, DecidableEq, Inhabited

/-- What the next word is read as. -/
inductive Expecting where
  /-- An option or a positional word. -/
  | anything
  /-- The value of the last option found. -/
  | value
  /-- A positional word, whatever it looks like. -/
  | positional
deriving Repr, DecidableEq

/-- The options found in one word, and whether the last one waits for a value. -/
structure WordOptions where
  /-- The options in order. -/
  found : List Occurrence
  /-- Whether the last one takes the next word as its value. -/
  waits : Bool := false
deriving Repr, DecidableEq

/-- A command line that has been read so far. -/
structure LineReader where
  /-- What was found. -/
  line : ParsedLine := {}
  /-- What the next word is read as. -/
  expecting : Expecting := .anything
deriving Repr, DecidableEq, Inhabited

namespace OptionTable

/-- The short options stacked in the characters after a dash; unknown characters are
skipped, and what follows an option with a value is its value. -/
def readStack (table : OptionTable) : List Char → WordOptions
  | [] => ⟨[], false⟩
  | c :: rest =>
    match table.namedOf? .short (String.ofList ['-', c]) with
    | none => table.readStack rest
    | some entry =>
      let attached := if rest.isEmpty then none else some (String.ofList rest)
      match entry.arity with
      | .absent =>
        let more := table.readStack rest
        { more with found := ⟨entry.option, none⟩ :: more.found }
      | .optional => ⟨[⟨entry.option, attached⟩], false⟩
      | .required => ⟨[⟨entry.option, attached⟩], attached.isNone⟩

/-- The option of an entry, with the value attached to the word. -/
def readEntry (entry : OptionEntry) (attached : Option String) : WordOptions :=
  match entry.arity with
  | .absent => ⟨[⟨entry.option, none⟩], false⟩
  | .optional => ⟨[⟨entry.option, attached⟩], false⟩
  | .required => ⟨[⟨entry.option, attached⟩], attached.isNone⟩

/-- The parts of a word around its first equals sign: the name of an option and the value
attached to it, if there is one. -/
def splitWord (word : String) : String × Option String :=
  match Text.cutAt? '=' word with
  | some (name, value) => (name, some value)
  | none => (word, none)

/-- The options in a word that begins with a dash. A word of two dashes names one
option; a word of one dash names one if it can, and is a stack otherwise. -/
def readOptionWord (table : OptionTable) (word : String) : WordOptions :=
  let name := (splitWord word).1
  let attached := (splitWord word).2
  if Text.beginsWith word "--" then
    match table.lookup? .long name with
    | some entry => readEntry entry attached
    | none => ⟨[], false⟩
  else
    match if 2 < word.length then table.lookup? .oldStyle name else none with
    | some entry => readEntry entry attached
    | none => table.readStack (word.toList.drop 1)

/-- Whether a word is positional where options are still read. -/
def isPlainWord (word : String) : Bool :=
  word == "-" || !Text.beginsWith word "-"

end OptionTable

namespace ParsedLine

/-- The line with one more positional word. -/
def addPositional (line : ParsedLine) (word : String) : ParsedLine :=
  { line with positionals := line.positionals ++ [word] }

/-- The line with more options. -/
def addOptions (line : ParsedLine) (found : List Occurrence) : ParsedLine :=
  { line with occurrences := line.occurrences ++ found }

/-- The line with a value for its last option. -/
def giveValue (line : ParsedLine) (word : String) : ParsedLine :=
  match line.occurrences.reverse with
  | [] => line
  | last :: earlier =>
    { line with occurrences := ({ last with value := some word } :: earlier).reverse }

/-- The options found, each once, in the order of their first use. -/
def supplied (line : ParsedLine) : List String :=
  (line.occurrences.map (·.option)).eraseDups

/-- Whether one of the options was found. -/
def hasOption (line : ParsedLine) (options : List String) : Bool :=
  line.occurrences.any fun found => options.contains found.option

/-- The last occurrence of one of the options. -/
def lastOf? (line : ParsedLine) (options : List String) : Option Occurrence :=
  line.occurrences.reverse.find? fun found => options.contains found.option

/-- The value of the last occurrence of an option. -/
def valueOf? (line : ParsedLine) (option : String) : Option String :=
  (line.lastOf? [option]).bind (·.value)

/-- Whether the last occurrence of one of the options has one of the values. -/
def optionIs (line : ParsedLine) (options values : List String) : Bool :=
  match (line.lastOf? options).bind (·.value) with
  | some value => values.contains value
  | none => false

/-- The positional word with a number, counted from one. -/
def positional? (line : ParsedLine) (number : Nat) : Option String :=
  if number == 0 then none else line.positionals[number - 1]?

end ParsedLine

namespace OptionTable

/-- Reads one more word. -/
def step (table : OptionTable) (reader : LineReader) (word : String) : LineReader :=
  match reader.expecting with
  | .value => ⟨reader.line.giveValue word, .anything⟩
  | .positional => { reader with line := reader.line.addPositional word }
  | .anything =>
    if isPlainWord word then { reader with line := reader.line.addPositional word }
    else if word == "--" then { reader with expecting := .positional }
    else
      let options := table.readOptionWord word
      ⟨reader.line.addOptions options.found,
        if options.waits then .value else .anything⟩

/-- Reads the words before the cursor, without the program's name. An option that
still waits for its value at the end has none. -/
def parseLine (table : OptionTable) (words : List String) : ParsedLine :=
  (words.foldl table.step {}).line

end OptionTable
end ShellCompletion
