import ShellCompletion.Completion.Basic
import ShellCompletion.Json.Printer

/-!
# List form of completions

Documents write a completion as a list whose first element names the kind, such as
`["choices", ["a", "b"]]` or `["range", 1, 10, 2]`. Parameters that have their
default value are left out.
-/

namespace ShellCompletion

/-- Why a list is no completion. -/
inductive CompletionError where
  /-- The first element is no text. -/
  | kindNotText (found : Json)
  /-- No kind has the name. -/
  | unknownKind (name : String)
  /-- Parameters of a kind that has none. -/
  | needless (kind : String)
  /-- A candidate that is neither text, number nor truth value. -/
  | notScalar (found : Json)
  /-- Choices that are not one list or map. -/
  | badChoices
  /-- A kind whose one parameter is a map of settings has something else. -/
  | settingsExpected (kind : String)
  /-- A setting that the kind does not have. -/
  | unknownSetting (kind name : String)
  /-- A bound of a range that is no integer. -/
  | notInteger (found : Json)
  /-- A range with too few or too many bounds. -/
  | badRange
  /-- A range that does not advance. -/
  | zeroStep
  /-- Something else than one command. -/
  | badCommand
  /-- Something else than one beginning of signal names. -/
  | badSignal
  /-- A setting of a value list with the wrong name or value. -/
  | badListSetting (name : String)
  /-- A value list without values. -/
  | missingValues

/-- The text of a completion error. -/
def CompletionError.message : CompletionError → String
  | kindNotText found => s!"completion kind must be a string, got {found.compact}"
  | unknownKind name => s!"unknown completion kind: {name}"
  | needless kind => s!"{kind}: takes no parameters"
  | notScalar found => s!"expected a scalar value, got {found.compact}"
  | badChoices => "choices: expected a list or a value-to-description map"
  | settingsExpected kind => s!"{kind}: expected an options map"
  | unknownSetting kind name => s!"{kind}: unknown option: {name}"
  | notInteger found => s!"range: expected integers, got {found.compact}"
  | badRange => "range: expected start, stop and an optional step"
  | zeroStep => "range: step must not be zero"
  | badCommand => "exec: expected exactly one command string"
  | badSignal => "signal: expected an optional prefix string"
  | badListSetting name => s!"value_list: invalid option: {name}"
  | missingValues => "value_list: missing values"

/-- The text of a scalar value. -/
def Json.scalarText : Json → Except CompletionError String
  | .text value => .ok value
  | .number value => .ok value.write
  | .bool value => .ok (if value then "true" else "false")
  | other => .error (.notScalar other)

namespace Choices

/-- The candidates in the parameters of a choices list. Of entries with the same key the
object has one, as every object does. -/
def ofParameters : List Json → Except CompletionError Choices
  | [.list values] => (values.mapM Json.scalarText).map plain
  | [.object entries] =>
    ((Json.distinct entries).mapM fun (entry : String × Json) =>
      entry.2.scalarText.map (entry.1, ·)).map described
  | _ => .error .badChoices

/-- The candidates as the parameter of a choices list. -/
def toParameter : Choices → Json
  | plain values => .texts values
  | described items => .object (Json.distinct (items.map fun (value, help) => (value, .text help)))

end Choices

namespace Completion

/-- The base directory among the parameters of a kind. -/
def directoryOf (kind : String) : List Json → Except CompletionError (Option String)
  | [] => .ok Option.none
  | [.object settings] =>
    settings.foldlM (fun _ (name, value) =>
      match name == "directory", value with
      | true, .text path => .ok (some path)
      | _, _ => .error (.unknownSetting kind name)) Option.none
  | _ => .error (.settingsExpected kind)

/-- A bound of a range. -/
def boundOf (value : Json) : Except CompletionError Int64 :=
  match value with
  | .number number =>
    match number.toSigned? with
    | some bound => .ok (Int64.ofInt bound)
    | Option.none => .error (.notInteger value)
  | _ => .error (.notInteger value)

/-- The range in the parameters of a range list. -/
def rangeOf (parameters : List Json) : Except CompletionError Completion := do
  match ← parameters.mapM boundOf with
  | [start, stop] => pure (range start stop 1)
  | [start, stop, step] => if step == 0 then throw .zeroStep else pure (range start stop step)
  | _ => throw .badRange

/-- Reads one setting of a value list. -/
def listSetting (found : String × Option (List String)) (setting : String × Json) :
    Except CompletionError (String × Option (List String)) :=
  match setting with
  | (name, .text separator) =>
    if name == "separator" && !separator.isEmpty then .ok (separator, found.2)
    else .error (.badListSetting name)
  | (name, .list items) =>
    if name == "values" then (items.mapM Json.scalarText).map fun values => (found.1, some values)
    else .error (.badListSetting name)
  | (name, _) => .error (.badListSetting name)

/-- The value list in the parameters of a value list. -/
def valueListOf : List Json → Except CompletionError Completion
  | [.object settings] => do
    let (separator, values) ← settings.foldlM listSetting (",", Option.none)
    match values with
    | some values => pure (valueList separator values)
    | Option.none => throw .missingValues
  | _ => .error (.settingsExpected "value_list")

/-- The completion of a kind with parameters. -/
def ofKind (kind : String) (parameters : List Json) : Except CompletionError Completion :=
  if kind == "choices" then (Choices.ofParameters parameters).map choices
  else if kind == "file" then (directoryOf kind parameters).map file
  else if kind == "directory" then (directoryOf kind parameters).map directory
  else if kind == "range" then rangeOf parameters
  else if kind == "exec" then
    match parameters with
    | [.text line] => .ok (exec line)
    | _ => .error .badCommand
  else if kind == "value_list" then valueListOf parameters
  else if kind == "signal" then
    match parameters with
    | [] => .ok (signal "")
    | [.text start] => .ok (signal start)
    | _ => .error .badSignal
  else
    match withoutParameters.find? (·.kind == kind) with
    | some completion =>
      if parameters.isEmpty then .ok completion else .error (.needless kind)
    | Option.none => .error (.unknownKind kind)

/-- Reads the list form. The empty list completes nothing. -/
def ofList : List Json → Except CompletionError Completion
  | [] => .ok none
  | .text kind :: parameters => ofKind kind parameters
  | other :: _ => .error (.kindNotText other)

/-- The parameters in the list form. -/
def parameters : Completion → List Json
  | choices options => [options.toParameter]
  | file (some path) | directory (some path) => [.object [("directory", .text path)]]
  | range start stop step =>
    let bounds := [.int start.toInt, .int stop.toInt]
    if step == 1 then bounds else bounds ++ [.int step.toInt]
  | exec line => [.text line]
  | valueList separator values =>
    [.object [("separator", .text separator), ("values", .texts values)]]
  | signal start => if start.isEmpty then [] else [.text start]
  | _ => []

/-- The list form. -/
def toList (completion : Completion) : List Json :=
  .text completion.kind :: completion.parameters

/-- The list form as one JSON value. -/
def toJson (completion : Completion) : Json :=
  .list completion.toList

end Completion
end ShellCompletion
