import ShellCompletion.Text.Blank
import ShellCompletion.Text.ShellWord

/-!
# Helper functions

Scripts call helper functions, some known in advance by a key and some made up for a
list of values. Only functions that are used become part of the script, in the order
of their first use.
-/

namespace ShellCompletion

/-- How a shell defines functions. -/
inductive FunctionStyle where
  /-- A name with parentheses and a body in braces. -/
  | posix
  /-- `function`, a name, a body and `end`. -/
  | fish
deriving Repr, DecidableEq

/-- The definition of a function. -/
def FunctionStyle.define (style : FunctionStyle) (name body : String) : String :=
  match style with
  | posix => name ++ "() \x7b\n" ++ body ++ "\n\x7d"
  | fish => "function " ++ name ++ "\n" ++ body ++ "\nend"

/-- A helper function in use. -/
structure Helper where
  /-- The key under which it is asked for again. -/
  key : String
  /-- Its name. -/
  name : String
  /-- Its body. -/
  body : String
deriving Repr, DecidableEq

/-- The helper functions of one script. -/
structure Helpers where
  /-- What all names begin with. -/
  start : String
  /-- How functions are defined. -/
  style : FunctionStyle
  /-- The functions known in advance, by key. -/
  available : List (String × String) := []
  /-- The functions in use, in the order of their first use. -/
  used : List Helper := []
deriving Repr, DecidableEq

namespace Helpers

/-- The helper functions of a program's script before any is used. -/
def new (program : String) (style : FunctionStyle) : Helpers :=
  { start := "_" ++ Text.identifier program, style := style }

/-- The name of the function for a key or hint. -/
def nameFor (helpers : Helpers) (key : String) : String :=
  helpers.start ++ "_" ++ key

/-- Makes a function known in advance. -/
def define (helpers : Helpers) (key body : String) : Helpers :=
  { helpers with available := helpers.available ++ [(key, Text.trim body)] }

/-- The name of the function for a key, which is in use from then on; none if the key
is not known. -/
def use (helpers : Helpers) (key : String) : Option String × Helpers :=
  match helpers.used.find? (·.key == key) with
  | some helper => (some helper.name, helpers)
  | none =>
    match helpers.available.find? (·.1 == key) with
    | none => (none, helpers)
    | some (_, body) =>
      let name := helpers.nameFor key
      (some name, { helpers with used := helpers.used ++ [⟨key, name, body⟩] })

/-- The name of a function with a body, made from a hint unless a function in use has
the same body. -/
def generate (helpers : Helpers) (hint body : String) : String × Helpers :=
  let body := Text.trim body
  match helpers.used.find? (·.body == body) with
  | some helper => (helper.name, helpers)
  | none =>
    let name := Text.fresh (helpers.used.map (·.name)) (helpers.nameFor (Text.identifier hint))
    (name, { helpers with used := helpers.used ++ [⟨name, name, body⟩] })

/-- The definitions of the functions in use. -/
def code (helpers : Helpers) : List String :=
  helpers.used.map fun helper =>
    helpers.style.define helper.name (Text.indent helper.body 2)

end Helpers
end ShellCompletion
