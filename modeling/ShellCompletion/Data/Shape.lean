import ShellCompletion.Data.Basic
import ShellCompletion.Decimal.Notation
import ShellCompletion.Json.Basic
import ShellCompletion.Text.Quoted

/-!
# Reading data as typed values

Data of one kind where another is expected is a shape error. Records may be written
as maps, whose unknown keys are ignored, or as lists of their fields in order.
-/

namespace ShellCompletion

/-- Why data is not of the shape asked for. -/
inductive ShapeError where
  /-- Data of another kind than expected. -/
  | wrongKind (found : Data) (expected : String)
  /-- Data of the right kind that is no value of the type. -/
  | wrongValue (found : Data) (expected : String)
  /-- A name that is none of the names of the type. -/
  | unknownVariant (name : String) (names : List String)
  /-- A record without a field it must have. -/
  | missingField (name : String)
  /-- A record that gives a field twice. -/
  | duplicateField (name : String)
  /-- A list of another length than expected. -/
  | wrongLength (length : Nat) (expected : String)
  /-- A text that does not say what its field needs. -/
  | malformed (reason : String)

/-- What a diagnostic says was found. -/
def Data.describe : Data → String
  | .null => "null"
  | .bool value => s!"boolean \x60{value}\x60"
  | .number (.int value) => s!"integer \x60{value}\x60"
  | .number (.float value) => "floating point \x60" ++ Decimal.write value ++ "\x60"
  | .text value => "string " ++ Text.quoted value
  | .list _ => "sequence"
  | .map _ => "map"

namespace ShapeError

/-- A name as diagnostics show it. -/
def tick (name : String) : String := "\x60" ++ name ++ "\x60"

/-- The text of a shape error. -/
def message : ShapeError → String
  | wrongKind found expected => s!"invalid type: {found.describe}, expected {expected}"
  | wrongValue found expected => s!"invalid value: {found.describe}, expected {expected}"
  | unknownVariant name names =>
    s!"unknown variant {tick name}, expected one of " ++ ", ".intercalate (names.map tick)
  | missingField name => s!"missing field {tick name}"
  | duplicateField name => s!"duplicate field {tick name}"
  | wrongLength length expected => s!"invalid length {length}, expected {expected}"
  | malformed reason => reason

end ShapeError

namespace Data

/-- The data as a truth value. -/
def asBool : Data → Except ShapeError Bool
  | .bool value => .ok value
  | other => .error (.wrongKind other "a boolean")

/-- The data as a text. -/
def asText : Data → Except ShapeError String
  | .text value => .ok value
  | other => .error (.wrongKind other "a string")

/-- The data as a number of things. -/
def asCount : Data → Except ShapeError Nat
  | .number (.int value) =>
    if value < 0 then .error (.wrongValue (.number (.int value)) "usize") else .ok value.toNat
  | other => .error (.wrongKind other "usize")

/-- The data as a list of values. -/
def asList {α : Type} (read : Data → Except ShapeError α) : Data → Except ShapeError (List α)
  | .list items => items.mapM read
  | other => .error (.wrongKind other "a sequence")

/-- The data as a value that may be absent. -/
def asOptional {α : Type} (read : Data → Except ShapeError α) :
    Data → Except ShapeError (Option α)
  | .null => .ok none
  | other => (read other).map some

end Data

/-- The data as the key of a JSON object. -/
def Data.asKey : Data → Except ShapeError String
  | .text value => .ok value
  | other => .error (.wrongKind other "a string key")

mutual

/-- The data as a JSON value. -/
def Data.toJson : Data → Except ShapeError Json
  | .null => .ok .null
  | .bool value => .ok (.bool value)
  | .number (.int value) => .ok (.int value)
  | .number (.float value) =>
    .ok (if value.isFinite then .number (.float value) else .null)
  | .text value => .ok (.text value)
  | .list items => (Data.toJsonItems items).map .list
  | .map entries => (Data.toJsonEntries entries).map fun found => .object (Json.distinct found)

/-- Several pieces of data as JSON values. -/
def Data.toJsonItems : List Data → Except ShapeError (List Json)
  | [] => .ok []
  | item :: rest => do
    let value ← item.toJson
    let values ← Data.toJsonItems rest
    pure (value :: values)

/-- The entries of a map as entries of a JSON object. -/
def Data.toJsonEntries : List (Data × Data) → Except ShapeError (List (String × Json))
  | [] => .ok []
  | (key, value) :: rest => do
    let name ← key.asKey
    let item ← value.toJson
    let items ← Data.toJsonEntries rest
    pure ((name, item) :: items)

end

/-- How one field of a record is read. -/
structure FieldShape (α : Type) where
  /-- The name of the field. -/
  name : String
  /-- Another name under which the field may be given. -/
  alternative : Option String
  /-- Whether the field must be given. -/
  required : Bool
  /-- Puts the value of the field into the record. -/
  read : Data → α → Except ShapeError α

/-- How a record is read. -/
structure RecordShape (α : Type) where
  /-- The name of the record in diagnostics. -/
  name : String
  /-- The record before any field is read. -/
  initial : α
  /-- The fields in order. -/
  fields : List (FieldShape α)

/-- A field that is read by a function of its own and put into the record. -/
def FieldShape.of {α β : Type} (name : String) (required : Bool)
    (read : Data → Except ShapeError β) (put : β → α → α) : FieldShape α :=
  ⟨name, none, required, fun data record => (read data).map (put · record)⟩

namespace RecordShape

variable {α : Type}

/-- The field that a key of a map names: a text names it by its name, a whole number
by its place. -/
def fieldOf (shape : RecordShape α) : Data → Except ShapeError (Option (FieldShape α))
  | .text key =>
    .ok (shape.fields.find? fun field => field.name == key || field.alternative == some key)
  | .number (.int place) =>
    if place < 0 then
      .error (.wrongKind (.number (.int place)) "field identifier")
    else .ok shape.fields[place.toNat]?
  | other => .error (.wrongKind other "field identifier")

/-- The record with the names of the fields read so far. -/
abbrev Draft (α : Type) := α × List String

/-- Reads one entry of a map into the record. -/
def readEntry (shape : RecordShape α) (draft : Draft α) (entry : Data × Data) :
    Except ShapeError (Draft α) := do
  match ← shape.fieldOf entry.1 with
  | none => pure draft
  | some field =>
    if draft.2.contains field.name then throw (.duplicateField field.name)
    let record ← field.read entry.2 draft.1
    pure (record, field.name :: draft.2)

/-- Reads a record given as a map. -/
def ofEntries (shape : RecordShape α) (entries : List (Data × Data)) :
    Except ShapeError α := do
  let (record, seen) ← entries.foldlM shape.readEntry (shape.initial, [])
  match shape.fields.find? fun field => field.required && !seen.contains field.name with
  | some field => throw (.missingField field.name)
  | none => pure record

/-- Reads a record given as a list of its fields. -/
def ofItems (shape : RecordShape α) (items : List Data) : Except ShapeError α := do
  let record ← (shape.fields.zip items).foldlM (fun record (field, item) =>
    field.read item record) shape.initial
  match (shape.fields.drop items.length).findIdx? (·.required) with
  | some place =>
    let fields := shape.fields.length
    throw (.wrongLength (items.length + place) s!"struct {shape.name} with {fields} elements")
  | none => pure ()
  if shape.fields.length < items.length then
    throw (.wrongLength items.length "fewer elements in array")
  pure record

/-- Reads a record. -/
def read (shape : RecordShape α) : Data → Except ShapeError α
  | .map entries => shape.ofEntries entries
  | .list items => shape.ofItems items
  | other => .error (.wrongKind other s!"struct {shape.name}")

end RecordShape
end ShellCompletion
