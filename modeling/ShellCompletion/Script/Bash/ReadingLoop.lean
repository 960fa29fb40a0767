import ShellCompletion.CommandLine.Parsed
import ShellCompletion.Script.Bash.ScopedOption
import ShellCompletion.Text.Lines

/-!
# The reading loop of a bash function

A completion function for bash reads the words before the cursor in a loop with cases for
the options it may meet. The cases are written as shell code; what they do to the variables
of the function is given beside it.
-/

namespace ShellCompletion.Bash

/-! ## Cases -/

/-- A pattern of a case. -/
inductive Pattern where
  /-- Exactly this text. -/
  | exactly (text : String)
  /-- Every text with this beginning. -/
  | beginning (text : String)
  /-- Every text. -/
  | any
deriving Repr, DecidableEq

/-- The pattern in shell code. -/
def Pattern.render : Pattern → String
  | exactly text => Text.escape text
  | beginning text => Text.escape text ++ "*"
  | any => "*"

/-- Whether a text matches the pattern. -/
def Pattern.accepts (text : String) : Pattern → Bool
  | exactly expected => text == expected
  | beginning start => Text.beginsWith text start
  | any => true

/-- Patterns of which one has to match. -/
def renderPatterns (patterns : List Pattern) : String :=
  "|".intercalate (patterns.map (·.render))

/-- What is done for a text that matches one of several patterns. -/
structure Case (α : Type) where
  /-- The patterns. -/
  patterns : List Pattern
  /-- What is done. -/
  action : α

namespace Case

variable {α : Type}

/-- What the first case does that a text matches. -/
def select? (cases : List (Case α)) (text : String) : Option α :=
  (cases.find? (·.patterns.any (·.accepts text))).map (·.action)

/-- The case in shell code, with the lines of what it does; the first of them follows the
patterns. -/
def render (lines : α → List String) (case : Case α) : String :=
  renderPatterns case.patterns ++ ")" ++ Text.unlines (lines case.action)

end Case

/-- The patterns of spellings with a value attached. -/
def attachedPatterns (words : List String) : List Pattern :=
  words.map fun word => .beginning (word ++ "=")

/-- The patterns of the letters of short options. -/
def letterPatterns (letters : List Char) : List Pattern :=
  letters.map fun letter => .exactly (String.singleton letter)

/-! ## Letters and words -/

/-- What is done for a letter. -/
inductive LetterAction where
  /-- An option is given; what follows the letter may be its value. -/
  | give (option : ScopedOption)
  /-- The letter is passed over. -/
  | skip

/-- Where the value of an option comes from that a word gives. -/
inductive ValueSource where
  /-- There is no value. -/
  | none
  /-- The value is empty. -/
  | empty
  /-- The value follows the first equals sign of the word. -/
  | attached
  /-- The value is the next word, if there is one before the cursor. -/
  | next
deriving Repr, DecidableEq

/-- What is done for a word that may be an option. -/
inductive WordAction where
  /-- No more options follow. -/
  | endOptions
  /-- An option is given. -/
  | give (option : ScopedOption) (source : ValueSource)
  /-- The word is passed over. -/
  | skip
  /-- The letters after the dash are read one by one. -/
  | letters (cases : List (Case LetterAction))

/-- The lines for a letter. -/
def LetterAction.lines : LetterAction → List String
  | skip => [" ;;"]
  | give option =>
    match option.arity with
    | .absent => [" " ++ option.position ++ "=$argi;;"]
    | .optional => [
        " " ++ option.position ++ "=$argi " ++ option.value ++ "=\"$\x7barg:i+1\x7d\"; break;;"]
    | .required => [
        "",
        "  " ++ option.position ++ "=$argi",
        "  if (( i + 1 < $\x7b#arg\x7d )); then",
        "    " ++ option.value ++ "=\"$\x7barg:i+1\x7d\"",
        "  elif (( ++argi < cword )); then",
        "    " ++ option.value ++ "=\"$\x7bwords[argi]\x7d\"",
        "  else",
        "    ARGUMENT_OF=" ++ option.name,
        "  fi",
        "  break;;"]

/-- The lines for a word. -/
def WordAction.lines : WordAction → List String
  | endOptions => [" END_OF_OPTIONS=1;;"]
  | skip => [" ;;"]
  | give option .none => [" " ++ option.position ++ "=$argi;;"]
  | give option .empty => [" " ++ option.position ++ "=$argi " ++ option.value ++ "='';;"]
  | give option .attached => [
      " " ++ option.position ++ "=$argi " ++ option.value ++ "=\"$\x7barg#*=\x7d\";;"]
  | give option .next => [
      "",
      "  " ++ option.position ++ "=$argi",
      "  if (( ++argi < cword )); then " ++ option.value ++
        "=\"$\x7bwords[argi]\x7d\"; else ARGUMENT_OF=" ++ option.name ++ "; fi;;"]
  | letters cases => [
      "",
      "  for ((i = 1; i < $\x7b#arg\x7d; ++i)); do",
      "    char=\"$\x7barg:i:1\x7d\"",
      "    case \"$char\" in",
      Text.indent (Text.unlines (cases.map (Case.render LetterAction.lines))) 6,
      "    esac",
      "  done;;"]

/-- The case for the letters of an option, if it has any. -/
def letterCases (option : ScopedOption) : List (Case LetterAction) :=
  if option.letters.isEmpty then [] else [⟨letterPatterns option.letters, .give option⟩]

/-- The cases for the long and old-style spellings of an option, if it has any. -/
def wordCases (option : ScopedOption) : List (Case WordAction) :=
  let bare := option.words.map Pattern.exactly
  let attached := attachedPatterns option.words
  if option.words.isEmpty then []
  else match option.arity with
    | .absent => [⟨bare ++ attached, .give option .none⟩]
    | .optional => [⟨bare, .give option .empty⟩, ⟨attached, .give option .attached⟩]
    | .required => [⟨bare, .give option .next⟩, ⟨attached, .give option .attached⟩]

/-- The cases for all letters. -/
def stackCases (options : List ScopedOption) : List (Case LetterAction) :=
  options.flatMap letterCases ++ [⟨[.any], .skip⟩]

/-- The cases for all words. -/
def loopCases (options : List ScopedOption) : List (Case WordAction) :=
  [⟨[.exactly "--"], .endOptions⟩] ++ options.flatMap wordCases ++
    [⟨[.beginning "--"], .skip⟩, ⟨[.any], .letters (stackCases options)⟩]

/-- The loop that reads the words before the cursor. -/
def readingLoop (options : List ScopedOption) : String :=
  Text.unlines [
    "for ((argi = 1; argi < cword; ++argi)); do",
    "  arg=\"$\x7bwords[argi]\x7d\"",
    "  if (( END_OF_OPTIONS )) || [[ \"$arg\" == - || \"$arg\" != -* ]]; then",
    "    POSITIONALS+=(\"$arg\")",
    "    continue",
    "  fi",
    "  case \"$arg\" in",
    Text.indent (Text.unlines ((loopCases options).map (Case.render WordAction.lines))) 4,
    "  esac",
    "done"]

/-! ## Running the loop -/

/-- The variables of the reading loop. -/
structure LoopState where
  /-- The positional words. -/
  positionals : List String := []
  /-- Whether no more options follow. -/
  endOfOptions : Bool := false
  /-- The end of the names of the variables of the option whose value is being typed. -/
  argumentOf : Option String := none
  /-- The positions of the options, by the ends of the names of their variables. -/
  position : String → Nat := fun _ => 0
  /-- The values of the options, by the ends of the names of their variables. -/
  value : String → String := fun _ => ""

namespace LoopState

/-- One more positional word. -/
def addPositional (state : LoopState) (word : String) : LoopState :=
  { state with positionals := state.positionals ++ [word] }

/-- An option is found in the word with a number. -/
def mark (state : LoopState) (option : ScopedOption) (number : Nat) : LoopState :=
  { state with
    position := fun name => if name == option.name then number else state.position name }

/-- An option is found with a value. -/
def give (state : LoopState) (option : ScopedOption) (number : Nat) (text : String) :
    LoopState :=
  { state.mark option number with
    value := fun name => if name == option.name then text else state.value name }

/-- An option is found whose value is the next word, or is being typed if there is none. -/
def giveNext (state : LoopState) (option : ScopedOption) (number : Nat) :
    Option String → LoopState
  | some word => state.give option number word
  | none => { state.mark option number with argumentOf := some option.name }

end LoopState

/-- Reads letters of the word with a number, given the word after it. The answer says
whether that word was taken as a value. -/
def readLetters (cases : List (Case LetterAction)) (number : Nat) (next : Option String)
    (state : LoopState) : List Char → LoopState × Bool
  | [] => (state, false)
  | letter :: rest =>
    match Case.select? cases (String.singleton letter) with
    | some (.give option) =>
      match option.arity with
      | .absent => readLetters cases number next (state.mark option number) rest
      | .optional => (state.give option number (String.ofList rest), false)
      | .required =>
        if rest.isEmpty then (state.giveNext option number next, true)
        else (state.give option number (String.ofList rest), false)
    | _ => readLetters cases number next state rest

/-- Does what a case says for the word with a number, given the word after it. The answer
says whether that word was taken as a value. -/
def WordAction.run (number : Nat) (word : String) (next : Option String) (state : LoopState) :
    WordAction → LoopState × Bool
  | endOptions => ({ state with endOfOptions := true }, false)
  | skip => (state, false)
  | give option .none => (state.mark option number, false)
  | give option .empty => (state.give option number "", false)
  | give option .attached =>
    (state.give option number ((OptionTable.splitWord word).2.getD word), false)
  | give option .next => (state.giveNext option number next, true)
  | letters cases => readLetters cases number next state (word.toList.drop 1)

/-- Reads the word with a number, given the word after it. The answer says whether that word
was taken as a value. -/
def readWord (cases : List (Case WordAction)) (number : Nat) (next : Option String)
    (state : LoopState) (word : String) : LoopState × Bool :=
  if state.endOfOptions || OptionTable.isPlainWord word then (state.addPositional word, false)
  else
    match Case.select? cases word with
    | some action => action.run number word next state
    | none => (state, false)

/-- Reads words of which the first has a number. -/
def readFrom (cases : List (Case WordAction)) (number : Nat) (state : LoopState) :
    List String → LoopState
  | [] => state
  | [word] => (readWord cases number none state word).1
  | word :: next :: rest =>
    match readWord cases number (some next) state word with
    | (after, true) => readFrom cases (number + 2) after rest
    | (after, false) => readFrom cases (number + 1) after (next :: rest)

/-- The variables after the loop has read the words before the cursor, without the
program's name. -/
def readWords (options : List ScopedOption) (words : List String) : LoopState :=
  readFrom (loopCases options) 1 {} words

end ShellCompletion.Bash
