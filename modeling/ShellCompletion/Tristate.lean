import ShellCompletion.Data.Shape
import ShellCompletion.Text.LetterCase

/-!
# Inheritable switches

A switch is on, off, or left to the enclosing scope.
-/

namespace ShellCompletion

/-- A truth value that may be left to the enclosing scope. -/
inductive Tristate where
  /-- On or off whatever the scope says. -/
  | set (value : Bool)
  /-- What the enclosing scope says. -/
  | inherit
deriving Repr, DecidableEq, Inhabited

namespace Tristate

/-- The value given explicitly. -/
def value? : Tristate → Option Bool
  | set value => some value
  | inherit => none

/-- Whether the switch is left to the enclosing scope. -/
def isInherit (switch : Tristate) : Bool :=
  switch.value?.isNone

/-- The switch with an explicit value if there is one. -/
def ofValue : Option Bool → Tristate
  | some value => set value
  | none => inherit

/-- The value of the switch in a scope. -/
def resolve (switch : Tristate) (enclosing : Bool) : Bool :=
  switch.value?.getD enclosing

/-- The name of the switch's state. -/
def name : Tristate → String
  | set true => "true"
  | set false => "false"
  | inherit => "inherit"

/-- The switch as the value of a document field. -/
def toJson : Tristate → Json
  | set value => .bool value
  | inherit => .null

/-- What the field of a document may hold. -/
def expected : String := "a boolean, null or \"inherit\""

/-- Reads the value of a document field; words count in any case. -/
def ofData : Data → Except ShapeError Tristate
  | .null => .ok inherit
  | .bool value => .ok (set value)
  | .text word =>
    match [inherit, set true, set false].find? (·.name == Text.lowerAscii word) with
    | some switch => .ok switch
    | none => .error (.wrongValue (.text word) expected)
  | other => .error (.wrongKind other expected)

end Tristate
end ShellCompletion
