import ShellCompletion.HelperFunctions
import ShellCompletion.Shell
import ShellCompletion.Warning

/-!
# Writing scripts

While a script is written, helper functions come into use and are called, and warnings
arise. An error keeps the warnings before it.
-/

namespace ShellCompletion

/-- What has come up while a script is written. -/
structure EmitState where
  /-- The helper functions. -/
  helpers : Helpers
  /-- The warnings in order. -/
  warnings : List Warning := []
  /-- The names of the helper functions that code calls, in the order of the calls. -/
  calls : List String := []

/-- A step in writing a script. -/
abbrev Emit (α : Type) := EStateM Error EmitState α

namespace Emit

/-- A step that uses no helper functions. -/
def ofExcept {α : Type} : Except Error α → Emit α
  | .ok value => pure value
  | .error error => throw error

/-- Adds a warning. -/
def warn (warning : Warning) : Emit Unit :=
  modify fun state => { state with warnings := state.warnings ++ [warning] }

/-- A call of the helper function that the writer for a shell knows by a key, by its name. -/
def helper (shell : Shell) (key : String) : Emit String := do
  let state ← get
  let (name?, helpers) := state.helpers.use key
  match name? with
  | some name =>
    set { state with helpers := helpers, calls := state.calls ++ [name] }
    pure name
  | none => throw (.internal s!"{shell.name} helper '{key}' is not defined")

/-- A call of a helper function with a body of its own, by its name. -/
def generated (hint body : String) : Emit String := do
  let state ← get
  let (name, helpers) := state.helpers.generate hint body
  set { state with helpers := helpers, calls := state.calls ++ [name] }
  pure name

/-- Runs the steps of writing a script, which begin with no helper function in use. -/
def run {α : Type} (helpers : Helpers) (steps : Emit α) : Logged (α × EmitState) := do
  let warnings ← get
  match EStateM.run steps { helpers, warnings } with
  | .ok value state =>
    set state.warnings
    pure (value, state)
  | .error error state =>
    set state.warnings
    throw error

end Emit
end ShellCompletion
