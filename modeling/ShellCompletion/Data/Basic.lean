/-!
# Data as written in a document

What a JSON or YAML text says before it is read as anything in particular. Maps keep
every entry in the order written, repeated keys included, and their keys may be of
any kind.
-/

namespace ShellCompletion

/-- A number of a document: an integer that fits 64 bits, with or without a sign, or
a number in double precision. -/
inductive Number where
  /-- A whole number from `-2 ^ 63` to `2 ^ 64 - 1`. -/
  | int (value : Int)
  /-- Any other number. -/
  | float (value : Float)

/-- A piece of data as written. -/
inductive Data where
  /-- The absent value. -/
  | null
  /-- A truth value. -/
  | bool (value : Bool)
  /-- A number. -/
  | number (value : Number)
  /-- A text. -/
  | text (value : String)
  /-- A list. -/
  | list (items : List Data)
  /-- A map with its entries as written. -/
  | map (entries : List (Data × Data))
deriving Inhabited

/-- The greatest integer that fits 64 bits without a sign, `2 ^ 64 - 1`. -/
def maxUnsigned : Nat := 0xFFFFFFFFFFFFFFFF

/-- The greatest size of a negative integer that fits 64 bits with a sign, `2 ^ 63`. -/
def maxNegative : Nat := 0x8000000000000000

/-- The number as a signed 64-bit integer, if it is one. -/
def Number.toSigned? : Number → Option Int
  | .int value => if -maxNegative ≤ value && value < maxNegative then some value else none
  | .float _ => none

/-- Equal numbers are of the same kind; numbers in double precision compare as such. -/
def Number.same : Number → Number → Bool
  | .int a, .int b => a == b
  | .float a, .float b => a == b
  | _, _ => false

end ShellCompletion
