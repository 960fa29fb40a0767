import ShellCompletion.Data.Shape

/-!
# Arity of options

Whether an option takes an argument, and the two ways this is written: as the value
of a document field and as the suffix of an option in an option list.
-/

namespace ShellCompletion

/-- Whether an option takes an argument. -/
inductive Arity where
  /-- A flag, never followed by a value. -/
  | absent
  /-- `--opt VALUE`, `--opt=VALUE`, `-oVALUE` or `-o VALUE`. -/
  | required
  /-- `--opt=VALUE` or `-oVALUE` only; a separate word is never taken. -/
  | optional
deriving Repr, DecidableEq, Inhabited

namespace Arity

/-- Whether options of this arity can have a value. -/
def takesValue : Arity → Bool
  | absent => false
  | required | optional => true

/-- The suffix of an option in an option list. -/
def suffix : Arity → String
  | absent => ""
  | required => "="
  | optional => "=?"

/-- The name of the arity. -/
def name : Arity → String
  | absent => "none"
  | required => "required"
  | optional => "optional"

/-- The arity as the value of a document field. -/
def toJson : Arity → Json
  | absent => .bool false
  | required => .bool true
  | optional => .text "?"

/-- What the field of a document may hold. -/
def expected : String := "true, false or \"?\""

/-- Reads the value of a document field. -/
def ofData : Data → Except ShapeError Arity
  | .bool true => .ok required
  | .bool false => .ok absent
  | .text word =>
    if word == "?" || word == "optional" then .ok optional
    else if word == "required" then .ok required
    else if word == "none" then .ok absent
    else .error (.wrongValue (.text word) expected)
  | other => .error (.wrongKind other expected)

end Arity
end ShellCompletion
