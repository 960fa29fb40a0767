import ShellCompletion.Json.Basic
import ShellCompletion.Decimal.Notation

/-!
# JSON text

Two layouts of JSON values: compact, without any blank, and pretty, with one entry a
line. Only quotes, backslashes and controls are escaped inside texts.
-/

namespace ShellCompletion

/-- The text of a number. -/
def Number.write : Number → String
  | .int value => toString value
  | .float value => Decimal.write value

namespace Json

/-- One character inside a JSON text. -/
def escapedChar (c : Char) : List Char :=
  if c == '"' || c == '\\' then ['\\', c]
  else if c == '\x08' then ['\\', 'b']
  else if c == '\x0c' then ['\\', 'f']
  else if c == '\n' then ['\\', 'n']
  else if c == '\r' then ['\\', 'r']
  else if c == '\t' then ['\\', 't']
  else if c.toNat < 0x20 then
    ['\\', 'u', '0', '0', Nat.digitChar (c.toNat / 16), Nat.digitChar (c.toNat % 16)]
  else [c]

/-- A text between quotes. -/
def quote (text : String) : String :=
  String.ofList (['"'] ++ text.toList.flatMap escapedChar ++ ['"'])

mutual

/-- The compact text of a value. -/
def compact : Json → String
  | .null => "null"
  | .bool value => if value then "true" else "false"
  | .number value => value.write
  | .text value => quote value
  | .list items => "[" ++ ",".intercalate (compactItems items) ++ "]"
  | .object entries => "\x7b" ++ ",".intercalate (compactEntries entries) ++ "\x7d"

/-- The compact texts of several values. -/
def compactItems : List Json → List String
  | [] => []
  | item :: rest => item.compact :: compactItems rest

/-- The compact texts of the entries of an object. -/
def compactEntries : List (String × Json) → List String
  | [] => []
  | (key, value) :: rest => (quote key ++ ":" ++ value.compact) :: compactEntries rest

end

/-- A line start at a depth: two blanks a level. -/
def margin (depth : Nat) : String :=
  String.ofList ('\n' :: List.replicate (2 * depth) ' ')

/-- Items between brackets, each on a line of its own; brackets around nothing stand
together. -/
def bracket (opening closing : String) (depth : Nat) (items : List String) : String :=
  if items.isEmpty then opening ++ closing
  else
    opening ++ margin (depth + 1) ++ ("," ++ margin (depth + 1)).intercalate items ++
      margin depth ++ closing

mutual

/-- The pretty text of a value that stands at a depth. -/
def prettyAt (depth : Nat) : Json → String
  | .list items => bracket "[" "]" depth (prettyItems (depth + 1) items)
  | .object entries => bracket "\x7b" "\x7d" depth (prettyEntries (depth + 1) entries)
  | scalar => scalar.compact

/-- The pretty texts of several values at a depth. -/
def prettyItems (depth : Nat) : List Json → List String
  | [] => []
  | item :: rest => item.prettyAt depth :: prettyItems depth rest

/-- The pretty texts of the entries of an object at a depth. -/
def prettyEntries (depth : Nat) : List (String × Json) → List String
  | [] => []
  | (key, value) :: rest =>
    (quote key ++ ": " ++ value.prettyAt depth) :: prettyEntries depth rest

end

/-- The pretty text of a value. -/
def pretty (value : Json) : String :=
  value.prettyAt 0

end Json
end ShellCompletion
