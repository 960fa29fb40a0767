import ShellCompletion.Data.Basic
import ShellCompletion.Json.Reader

/-!
# What plain YAML scalars mean

A scalar without quotes and tag may be read as the absent value, a truth value or a
number; it is a text otherwise.
-/

namespace ShellCompletion.Yaml

/-- The words for the absent value. -/
def nullWords : List String := ["null", "Null", "NULL", "~"]

/-- The truth value that a word stands for. -/
def truthValue? (word : String) : Option Bool :=
  if ["true", "True", "TRUE"].contains word then some true
  else if ["false", "False", "FALSE"].contains word then some false
  else none

/-- Drops a sign at the start of a text. -/
def dropSign : List Char → List Char
  | '+' :: rest => rest
  | '-' :: rest => rest
  | text => text

/-- Whether a text is several digits of which the first is zero, after a sign or not;
such a text is no number. -/
def isZeroPadded (text : List Char) : Bool :=
  match dropSign text with
  | '0' :: digit :: rest => digit.isDigit && rest.all Char.isDigit
  | _ => false

/-- The number that some digits write in a base. -/
def digitsIn? (base : Nat) (digits : List Char) : Option Nat :=
  if digits.isEmpty then none
  else digits.foldlM (fun value c => do
    let digit ← Json.hexValue? c
    if digit < base then some (value * base + digit) else none) 0

/-- The whole number that a text without sign writes, in base ten unless a mark for
another base comes first. -/
def natural? : List Char → Option Nat
  | '0' :: 'x' :: digits => digitsIn? 16 digits
  | '0' :: 'o' :: digits => digitsIn? 8 digits
  | '0' :: 'b' :: digits => digitsIn? 2 digits
  | digits => digitsIn? 10 digits

/-- The greatest integer that fits 128 bits without a sign, `2 ^ 128 - 1`. -/
def widestUnsigned : Nat := 0xFFFFFFFFFFFFFFFFFFFFFFFFFFFFFFFF

/-- The greatest size of a negative integer that fits 128 bits with a sign, `2 ^ 127`. -/
def widestNegative : Nat := 0x80000000000000000000000000000000

/-- The whole number of at most 128 bits that a text writes. -/
def integer? (text : List Char) : Option Int :=
  if isZeroPadded text then none
  else match text with
    | '-' :: rest => do
      let value ← natural? rest
      if value ≤ widestNegative then some (-value) else none
    | '+' :: rest => (natural? rest).bind inRange
    | rest => (natural? rest).bind inRange
where
  /-- A number of at most 128 bits. -/
  inRange (value : Nat) : Option Int :=
    if value ≤ widestUnsigned then some value else none

/-- The number nearest to `digits * 10 ^ exponent`, if there is one in range. -/
def decimal? (digits : Nat) (exponent : Int) : Option Float :=
  let leading := ((Nat.toDigits 10 digits).length : Int) + exponent
  if digits == 0 || leading < -400 then some 0
  else if 400 < leading then none
  else
    let value := Float.ofScientific digits (exponent < 0) exponent.natAbs
    if value.isFinite then some value else none

/-- Reads the digits at the start of a text as a number that goes on from another; also
gives how many there are. -/
def digitRun (before : Nat) (text : List Char) : Nat × Nat × List Char :=
  let (digits, rest) := text.span Char.isDigit
  (digits.foldl (fun value c => value * 10 + Json.digitValue c) before, digits.length, rest)

/-- The exponent that a text consists of. -/
def exponent? : List Char → Option Int
  | [] => some 0
  | mark :: rest =>
    if mark != 'e' && mark != 'E' then none
    else
      let (value, length, after) := digitRun 0 (dropSign rest)
      if length == 0 || !after.isEmpty then none
      else some (if rest.head? == some '-' then -value else value)

/-- The number in double precision that a text without sign writes. -/
def unsignedFloat? (text : List Char) : Option Float :=
  let (whole, wholeLength, rest) := digitRun 0 text
  let (digits, places, rest) := match rest with
    | '.' :: rest => digitRun whole rest
    | rest => (whole, 0, rest)
  if wholeLength + places == 0 then none
  else (exponent? rest).bind fun exponent => decimal? digits (exponent - places)

/-- The infinite value that a word without sign stands for. -/
def infinity? (text : List Char) : Option Float :=
  if [".inf", ".Inf", ".INF"].contains (String.ofList text) then some (1.0 / 0.0) else none

/-- The number in double precision that a text writes. -/
def float? (text : List Char) : Option Float :=
  if [".nan", ".NaN", ".NAN"].contains (String.ofList text) then some (0.0 / 0.0)
  else match text with
    | '-' :: rest => ((infinity? rest).or (unsignedFloat? rest)).map fun value => -value
    | '+' :: rest => (infinity? rest).or (unsignedFloat? rest)
    | rest => (infinity? rest).or (unsignedFloat? rest)

/-- A whole number as data, if it fits 64 bits. -/
def intData? (value : Int) : Option Data :=
  if -maxNegative ≤ value && value ≤ maxUnsigned then some (.number (.int value)) else none

/-- What a plain scalar without tag means; whole numbers from 65 to 128 bits are
refused. -/
def plainData? (text : String) : Option Data :=
  if text.isEmpty || nullWords.contains text then some .null
  else match truthValue? text with
    | some value => some (.bool value)
    | none =>
      match integer? text.toList with
      | some value => intData? value
      | none =>
        if isZeroPadded text.toList then some (.text text)
        else match float? text.toList with
          | some value => some (.number (.float value))
          | none => some (.text text)

/-- Whether a plain scalar would not be a text. -/
def isAmbiguous (text : String) : Bool :=
  match plainData? text with
  | some (.text _) => isZeroPadded text.toList
  | _ => true

end ShellCompletion.Yaml
