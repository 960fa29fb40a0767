import ShellCompletion.Arity
import ShellCompletion.Error
import ShellCompletion.Text.Affix
import ShellCompletion.Text.LetterCase
import ShellCompletion.Tristate

/-!
# Options

An option is a set of option strings with what is known about its value. A draft
collects a declaration; only a sound draft becomes an option.
-/

namespace ShellCompletion

/-- The lexical classes of option strings. -/
inductive OptionKind where
  /-- `-x` -/
  | short
  /-- `--xxx` -/
  | long
  /-- `-xxx` -/
  | oldStyle
deriving Repr, DecidableEq

/-- The class of an option string: two dashes make it long, two characters short. -/
def OptionKind.of (string : String) : OptionKind :=
  if Text.beginsWith string "--" then long
  else if string.length == 2 then short
  else oldStyle

/-- The name of the class. -/
def OptionKind.name : OptionKind → String
  | short => "Short"
  | long => "Long"
  | oldStyle => "OldStyle"

/-- What is wrong with one option string. -/
def optionStringFault? (string : String) : Option OptionFault :=
  if string.toList.any Text.isBlank then some (.blank string)
  else if !Text.beginsWith string "-" then some (.undashed string)
  else if string == "-" || string == "--" || Text.beginsWith string "---" then
    some (.malformed string)
  else none

/-- What is wrong with the option strings of one option. -/
def optionStringsFault? (strings : List String) : Option OptionFault :=
  let dashed := strings.countP (Text.beginsWith · "-")
  if strings.isEmpty then some .noStrings
  else if dashed != 0 && dashed != strings.length then some (.mixed strings)
  else strings.findSome? optionStringFault?

/-- An option of a command. -/
structure CommandOption where
  /-- The words that stand for the option. -/
  strings : List String
  /-- The name of the value, if one was given. -/
  metavar : Option String
  /-- The description. -/
  help : String
  /-- Whether the option takes a value. -/
  arity : Arity
  /-- Whether the option is offered again once it was given. -/
  repeatable : Tristate
  /-- The group of options of which at most one may be given. -/
  group : Option String
  /-- When the option is shown. -/
  when : Option Condition
  /-- How the value is completed. -/
  completion : Completion
  /-- The option strings are sound. -/
  strings_sound : optionStringsFault? strings = none
deriving DecidableEq

/-- A declaration of an option that has not been checked. -/
structure OptionDraft where
  /-- The words that stand for the option. -/
  strings : List String
  /-- The name of the value. -/
  metavar : Option String := none
  /-- The description. -/
  help : String := ""
  /-- Whether the option takes a value. -/
  arity : Arity := .required
  /-- Whether the option is offered again once it was given. -/
  repeatable : Tristate := .inherit
  /-- The group of options of which at most one may be given. -/
  group : Option String := none
  /-- When the option is shown. -/
  when : Option Condition := none
  /-- A completion of the value. -/
  completion : Option Completion := none
  /-- Fixed candidates for the value. -/
  choices : Option (List String) := none

namespace OptionDraft

/-- The name of the option in messages. -/
def name (draft : OptionDraft) : String :=
  "|".intercalate draft.strings

/-- The completion that the draft's two ways of giving one amount to. -/
def resolvedCompletion (draft : OptionDraft) : Except Error Completion :=
  match draft.choices, draft.completion with
  | some values, some completion =>
    if completion.isNone then .ok (.choices (.plain values))
    else .error (.ambiguousCompletion draft.name)
  | some values, none => .ok (.choices (.plain values))
  | none, some completion => .ok completion
  | none, none => .ok .none

/-- The option that the draft declares, if it is sound. -/
def build (draft : OptionDraft) : Except Error CommandOption :=
  match sound : optionStringsFault? draft.strings with
  | some fault => .error (.invalidOption fault)
  | none =>
    if !draft.arity.takesValue && draft.metavar.isSome then
      .error (.invalidOption (.needlessMetavar draft.name))
    else do
      let completion ← draft.resolvedCompletion
      if !draft.arity.takesValue && !completion.isNone then
        throw (.invalidOption (.needlessCompletion draft.name))
      pure {
        strings := draft.strings
        metavar := draft.metavar
        help := draft.help
        arity := draft.arity
        repeatable := draft.repeatable
        group := draft.group
        when := draft.when
        completion := completion
        strings_sound := sound }

/-- The draft of a flag. -/
def flag (strings : List String) (help : String) : OptionDraft :=
  { strings := strings, help := help, arity := .absent }

end OptionDraft

namespace CommandOption

/-- Whether the option can have a value. -/
def takesValue (option : CommandOption) : Bool :=
  option.arity.takesValue

/-- The option strings of one class, in order. -/
def stringsOf (option : CommandOption) (kind : OptionKind) : List String :=
  option.strings.filter (OptionKind.of · == kind)

/-- Whether the string is one of the option's. -/
def answersTo (option : CommandOption) (string : String) : Bool :=
  option.strings.contains string

/-- The last of the strings with the most bytes in UTF-8. -/
def longestString : List String → String :=
  List.foldl (fun longest string =>
    if longest.utf8ByteSize ≤ string.utf8ByteSize then string else longest) ""

/-- The name shown for the option's value: the given one, else the longest option
string without its dashes in upper case. -/
def displayMetavar (option : CommandOption) : String :=
  option.metavar.getD (Text.upper (Text.dropDashes (longestString option.strings)))

/-- The option as a member of a group. -/
def inGroup (option : CommandOption) (group : String) : CommandOption :=
  { option with group := some group }

end CommandOption
end ShellCompletion
