import ShellCompletion.Scope.Basic
import ShellCompletion.Text.ShellWord

/-!
# Options of a bash function

A completion function for bash reads the command line itself. For every option it may
meet it keeps the position of the last occurrence in one variable and, if the option
takes a value, the last value in another.
-/

namespace ShellCompletion.Bash

/-- An option with the strings that stand for it where the function reads words. -/
structure ScopedOption where
  /-- The option. -/
  declared : Declaration
  /-- The end of the names of its variables. -/
  name : String
  /-- The strings that no nearer option has. -/
  strings : List String
  /-- The long and old-style spellings, accepted abbreviations included. -/
  words : List String
  /-- The letters of the short strings. -/
  letters : List Char

namespace ScopedOption

/-- Whether the option takes a value. -/
def arity (option : ScopedOption) : Arity :=
  option.declared.option.arity

/-- The variable with the position of the last occurrence, zero if there is none. -/
def position (option : ScopedOption) : String :=
  "HAVE_" ++ option.name

/-- The variable with the last value. -/
def value (option : ScopedOption) : String :=
  "VALUE_" ++ option.name

end ScopedOption

/-- The options with the strings that no option before has, as far as there are any. -/
def claim (claimed : List String) : List Declaration → List (Declaration × List String)
  | [] => []
  | declared :: rest =>
    let strings := declared.option.strings.filter (!claimed.contains ·)
    if strings.isEmpty then claim claimed rest
    else (declared, strings) :: claim (claimed ++ strings) rest

/-- The string that names the variables best: the first long one, else the first
old-style one, else the first. -/
def preferredString (strings : List String) : String :=
  ((strings.find? (OptionKind.of · == .long)).or <|
    (strings.find? (OptionKind.of · == .oldStyle)).or strings.head?).getD ""

/-- The end of the names of an option's variables, before it is made different from
others. -/
def baseName (strings : List String) : String :=
  let name := Text.identifier (Text.dropDashes (preferredString strings))
  if name.isEmpty then "option" else name

/-- The spellings of the strings that are not short. -/
def spelledWords (tokens : List String) (spellings : Spellings) (strings : List String) :
    List String :=
  (strings.filter (OptionKind.of · != .short)).flatMap fun string =>
    match tokens.idxOf? string with
    | some place => spellings.wordsOf place
    | none => []

/-- The letters of the short strings. -/
def shortLetters (strings : List String) : List Char :=
  (strings.filter (OptionKind.of · == .short)).filterMap fun string => string.toList[1]?

/-- The scoped options of claims, with names different from the taken ones and from each
other. -/
def nameClaims (tokens : List String) (spellings : Spellings) (taken : List String) :
    List (Declaration × List String) → List ScopedOption
  | [] => []
  | (declared, strings) :: rest =>
    let name := Text.fresh taken (baseName strings)
    { declared := declared
      name := name
      strings := strings
      words := spelledWords tokens spellings strings
      letters := shortLetters strings } ::
      nameClaims tokens spellings (taken ++ [name]) rest

/-- The options that a command's function may meet, nearest first. -/
def scopedOptions (scope : Scope) : List ScopedOption :=
  let claims := claim [] scope.knownOptions
  let tokens := (claims.flatMap (·.2)).filter (OptionKind.of · != .short)
  let spellings := Spellings.ofTokens tokens minOptionBeginning scope.abbreviateOptions
  nameClaims tokens spellings [] claims

/-- The option that has a string. -/
def ownerOf? (options : List ScopedOption) (string : String) : Option ScopedOption :=
  options.find? (·.strings.contains string)

/-- The options that have one of the strings, each once, in the order of the strings. -/
def ownersOf (options : List ScopedOption) (strings : List String) : List ScopedOption :=
  (strings.filterMap (ownerOf? options)).foldl (fun owners owner =>
    if owners.any (·.declared.sameAddress owner.declared) then owners
    else owners ++ [owner]) []

end ShellCompletion.Bash
