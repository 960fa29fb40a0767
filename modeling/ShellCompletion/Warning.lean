import ShellCompletion.Arity
import ShellCompletion.Error

/-!
# Warnings

What is worth telling about a specification that is compiled all the same. Warnings
are collected in order; an error keeps those before it.
-/

namespace ShellCompletion

/-- Something worth telling. -/
inductive Warning where
  /-- A repeatable positional has further positions after it. -/
  | repeatableNotLast (metavar command : String)
  /-- zsh cannot complete names of services. -/
  | noServiceNames
  /-- An argument with several values is completed as if it had one. -/
  | severalValues (argument : String) (least most : Nat) (arity : Arity)
deriving Repr, DecidableEq

/-- The text of a warning. -/
def Warning.message : Warning → String
  | repeatableNotLast metavar command =>
    s!"Repeatable positional '{metavar}' in '{command}' is followed by further positionals"
  | noServiceNames => "zsh has no portable service completion, completing nothing"
  | severalValues argument least most arity =>
    s!"{argument}: takes {least}..{most} values, completing it as taking one {arity.name} value"

/-- A computation that may warn and may fail. -/
abbrev Logged (α : Type) := EStateM Error (List Warning) α

namespace Logged

/-- Adds a warning. -/
def warn (warning : Warning) : Logged Unit :=
  modify (· ++ [warning])

/-- A computation that does not warn. -/
def ofExcept {α : Type} : Except Error α → Logged α
  | .ok value => pure value
  | .error error => throw error

/-- The warnings and the result of a computation. -/
def outcome {α : Type} (action : Logged α) : List Warning × Except Error α :=
  match EStateM.run action [] with
  | .ok value warnings => (warnings, .ok value)
  | .error error warnings => (warnings, .error error)

end Logged
end ShellCompletion
