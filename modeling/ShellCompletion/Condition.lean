import ShellCompletion.Data.Shape
import ShellCompletion.Text.Blank

/-!
# Conditions on what was typed

An argument may be shown only when certain options were given, or were given with
certain values. A condition is written as one line of words,
`has_option --verbose -v` or `option_is --mode -m -- fast slow`.
-/

namespace ShellCompletion

/-- When an argument is shown. -/
inductive Condition where
  /-- One of the options was given. -/
  | hasOption (options : List String)
  /-- The last value given to one of the options is one of the values. -/
  | optionIs (options values : List String)
deriving Repr, DecidableEq

/-- The two forms of conditions. -/
inductive ConditionForm where
  /-- `has_option OPTION...` -/
  | hasOption
  /-- `option_is OPTION... -- VALUE...` -/
  | optionIs
deriving Repr, DecidableEq

/-- The word a condition of this form begins with. -/
def ConditionForm.word : ConditionForm → String
  | hasOption => "has_option"
  | optionIs => "option_is"

/-- Why words are no condition. -/
inductive ConditionError where
  /-- There are no words. -/
  | empty
  /-- The first word begins no condition. -/
  | unknownForm (word : String)
  /-- No options are named. -/
  | missingOptions (form : ConditionForm)
  /-- A separator in a form without values. -/
  | unexpectedSeparator
  /-- No separator in the form with values. -/
  | missingSeparator
  /-- No values after the separator. -/
  | missingValues
deriving Repr, DecidableEq

/-- The text of a condition error. -/
def ConditionError.message : ConditionError → String
  | empty => "empty when condition"
  | unknownForm word => s!"unknown condition command: {word}"
  | missingOptions form => s!"{form.word}: missing option strings"
  | unexpectedSeparator => "has_option: unexpected '--'"
  | missingSeparator => "option_is: missing '--' before values"
  | missingValues => "option_is: missing values"

namespace Condition

/-- The option strings the condition names. -/
def options : Condition → List String
  | hasOption options => options
  | optionIs options _ => options

/-- The form of the condition. -/
def form : Condition → ConditionForm
  | hasOption _ => .hasOption
  | optionIs _ _ => .optionIs

/-- The words of the condition. -/
def toWords : Condition → List String
  | hasOption options => ConditionForm.hasOption.word :: options
  | optionIs options values => ConditionForm.optionIs.word :: options ++ "--" :: values

/-- The condition as one line. -/
def render (condition : Condition) : String :=
  " ".intercalate condition.toWords

/-- The condition made of words, if they are one. -/
def ofWords? : List String → Except ConditionError Condition
  | [] => .error .empty
  | word :: arguments =>
    if word == ConditionForm.hasOption.word then
      if arguments.isEmpty then .error (.missingOptions .hasOption)
      else if arguments.contains "--" then .error .unexpectedSeparator
      else .ok (hasOption arguments)
    else if word == ConditionForm.optionIs.word then
      match arguments.span (· != "--") with
      | (_, []) => .error .missingSeparator
      | (options, _ :: values) =>
        if options.isEmpty then .error (.missingOptions .optionIs)
        else if values.isEmpty then .error .missingValues
        else .ok (optionIs options values)
    else .error (.unknownForm word)

/-- Reads a condition written as one line. -/
def parse (line : String) : Except ConditionError Condition :=
  ofWords? (Text.words line)

/-- Reads the value of a document field. -/
def ofData (data : Data) : Except ShapeError Condition := do
  match parse (← data.asText) with
  | .ok condition => pure condition
  | .error error => throw (.malformed error.message)

end Condition
end ShellCompletion
