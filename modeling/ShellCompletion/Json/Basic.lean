import ShellCompletion.Data.Basic

/-!
# JSON values

A JSON value is data whose maps have text keys, each key once. Data is turned into a
JSON value entry by entry: a repeated key keeps its first place and takes its last
value, and numbers that JSON cannot write become `null`.
-/

namespace ShellCompletion

/-- A JSON value; an object keeps its entries in order. -/
inductive Json where
  /-- The absent value. -/
  | null
  /-- A truth value. -/
  | bool (value : Bool)
  /-- A number. -/
  | number (value : Number)
  /-- A text. -/
  | text (value : String)
  /-- A list. -/
  | list (items : List Json)
  /-- An object with its entries in order. -/
  | object (entries : List (String × Json))
deriving Inhabited

namespace Json

/-- A whole number as a JSON value. -/
def int (value : Int) : Json := .number (.int value)

/-- A list of texts as a JSON value. -/
def texts (values : List String) : Json := .list (values.map .text)

/-- The value of the first entry with the key. -/
def lookup? (key : String) : List (String × Json) → Option Json
  | [] => none
  | (name, value) :: rest => if name == key then some value else lookup? key rest

/-- The value a JSON object has under a key. -/
def get? (key : String) : Json → Option Json
  | .object entries => lookup? key entries
  | _ => none

/-- The entries with one more: in the place of an entry with the same key, else at
the end. -/
def put {α : Type} (entries : List (String × α)) (key : String) (value : α) :
    List (String × α) :=
  match entries with
  | [] => [(key, value)]
  | (name, old) :: rest =>
    if name == key then (name, value) :: rest else (name, old) :: put rest key value

/-- The entries with each key once, in its first place with its last value. -/
def distinct {α : Type} (entries : List (String × α)) : List (String × α) :=
  entries.foldl (fun kept (key, value) => put kept key value) []

mutual

/-- Whether two values say the same; objects do so in any order of their entries. -/
def same : Json → Json → Bool
  | .null, .null => true
  | .bool a, .bool b => a == b
  | .number a, .number b => a.same b
  | .text a, .text b => a == b
  | .list a, .list b => sameItems a b
  | .object a, .object b => a.length == b.length && sameEntries a b
  | _, _ => false

/-- Whether two lists hold the same values in the same order. -/
def sameItems : List Json → List Json → Bool
  | [], [] => true
  | a :: as, b :: bs => same a b && sameItems as bs
  | _, _ => false

/-- Whether every entry of the first object is in the second. -/
def sameEntries : List (String × Json) → List (String × Json) → Bool
  | [], _ => true
  | (key, value) :: rest, others =>
    (match lookup? key others with
      | some other => same value other
      | none => false) && sameEntries rest others

end

mutual

/-- A JSON value as data. -/
def toData : Json → Data
  | .null => .null
  | .bool value => .bool value
  | .number value => .number value
  | .text value => .text value
  | .list items => .list (toDataItems items)
  | .object entries => .map (toDataEntries entries)

/-- JSON values as data, one by one. -/
def toDataItems : List Json → List Data
  | [] => []
  | item :: rest => item.toData :: toDataItems rest

/-- The entries of an object as entries of a map. -/
def toDataEntries : List (String × Json) → List (Data × Data)
  | [] => []
  | (key, value) :: rest => (.text key, value.toData) :: toDataEntries rest

end

end Json
end ShellCompletion
