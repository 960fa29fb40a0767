import ShellCompletion.Text.Lines

/-!
# Words in shell code

A word of safe characters stands for itself in every shell; any other word is put
between single quotes. Names of functions and variables are made of letters, digits
and underscores.
-/

namespace ShellCompletion.Text

/-- Whether a character never needs quotes. -/
def isSafeChar (c : Char) : Bool :=
  c.isAlphanum || "_@%+=:,./-".toList.contains c

/-- Whether a word needs no quotes. -/
def isSafeWord (word : String) : Bool :=
  !word.isEmpty && word.toList.all isSafeChar

/-- One character between single quotes in bash and zsh: a single quote ends them,
stands between double quotes, and opens them again. -/
def posixChar (c : Char) : List Char :=
  if c == '\'' then ['\'', '"', '\'', '"', '\''] else [c]

/-- A word for bash and zsh. -/
def escape (word : String) : String :=
  if isSafeWord word then word
  else String.ofList (['\''] ++ word.toList.flatMap posixChar ++ ['\''])

/-- One character between single quotes in fish, where backslashes are special. -/
def fishChar (c : Char) : List Char :=
  if c == '\'' || c == '\\' then ['\\', c] else [c]

/-- A word for fish. -/
def escapeFish (word : String) : String :=
  if isSafeWord word then word
  else String.ofList (['\''] ++ word.toList.flatMap fishChar ++ ['\''])

/-- Words for bash and zsh with blanks between them. -/
def escapeAll (words : List String) : String :=
  " ".intercalate (words.map escape)

/-- Words for fish with blanks between them. -/
def escapeFishAll (words : List String) : String :=
  " ".intercalate (words.map escapeFish)

/-- Whether a character may stand in a name. -/
def isNameChar (c : Char) : Bool :=
  c.isAlphanum || c == '_'

/-- A text as a name, with an underscore for every character that names do not have. -/
def identifier (text : String) : String :=
  String.ofList (text.toList.map fun c => if isNameChar c then c else '_')

/-- The base name followed by a number. -/
def numbered (base : String) (number : Nat) : String :=
  base ++ toString number

/-- The first of `base`, `base2`, `base3`, … from a number on that is not taken, trying
at most `fuel` numbers. -/
def freshFrom (taken : List String) (base : String) : Nat → Nat → String
  | 0, number => numbered base number
  | fuel + 1, number =>
    if taken.contains (numbered base number) then freshFrom taken base fuel (number + 1)
    else numbered base number

/-- The base name if it is not taken, else the first of `base2`, `base3`, … that is
not. Among more numbers than there are taken names one must be free. -/
def fresh (taken : List String) (base : String) : String :=
  if taken.contains base then freshFrom taken base taken.length 2 else base

end ShellCompletion.Text
