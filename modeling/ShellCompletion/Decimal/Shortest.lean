/-!
# Shortest decimal forms of binary numbers

A finite positive binary number is `mantissa * 2 ^ exponent`. Its shortest decimal
form has the fewest digits among the decimals that round to it, and is the nearest
of those. All comparisons are exact comparisons of natural numbers.
-/

namespace ShellCompletion.Decimal

/-- A power of two. -/
def twoTo (exponent : Nat) : Nat :=
  Nat.pow 2 exponent

/-- A power of ten. -/
def tenTo (exponent : Nat) : Nat :=
  Nat.pow 10 exponent

/-- A positive decimal number, `digits * 10 ^ exponent`. -/
structure Scaled where
  /-- The digits as one number. -/
  digits : Nat
  /-- The power of ten that the last digit counts. -/
  exponent : Int
deriving Repr, DecidableEq

/-- The interval of numbers that round to one binary number, in fractions with a
common denominator. -/
structure Rounding where
  /-- Numerator of the binary number itself. -/
  value : Nat
  /-- Numerator of the lower end. -/
  low : Nat
  /-- Numerator of the upper end. -/
  high : Nat
  /-- The common denominator. -/
  denominator : Nat
  /-- Whether the ends round to the number too, which they do if its mantissa is even. -/
  closed : Bool

/-- The rounding interval of `mantissa * 2 ^ exponent`. Below a power of two the
neighbouring numbers lie twice as close, except at the smallest exponent. -/
def Rounding.of (mantissa : Nat) (exponent : Int) : Rounding :=
  let scale : Nat := twoTo (exponent - 2).toNat
  let gap : Nat := if mantissa == twoTo 52 && exponent != -1074 then 1 else 2
  { value := 4 * mantissa * scale
    low := (4 * mantissa - gap) * scale
    high := (4 * mantissa + 2) * scale
    denominator := twoTo (2 - exponent).toNat
    closed := mantissa % 2 == 0 }

/-- Whether `digits * 10 ^ exponent` lies in the interval. -/
def Rounding.holds (interval : Rounding) (digits : Nat) (exponent : Int) : Bool :=
  let candidate := digits * tenTo exponent.toNat * interval.denominator
  let unit := tenTo (-exponent).toNat
  if interval.closed then
    interval.low * unit ≤ candidate && candidate ≤ interval.high * unit
  else
    interval.low * unit < candidate && candidate < interval.high * unit

/-- How many digits a positive number has. -/
def digitCount (n : Nat) : Nat :=
  (Nat.toDigits 10 n).length

/-- The power of ten that the first digit of a positive fraction counts. -/
def leadingExponent (numerator denominator : Nat) : Int :=
  if denominator ≤ numerator then
    (digitCount (numerator / denominator) : Int) - 1
  else
    let places := digitCount (denominator / numerator)
    if numerator * tenTo (places - 1) == denominator then 1 - (places : Int) else -(places : Int)

/-- The decimal of the grid `10 ^ exponent` that rounds to the number, if one does:
the nearer of the number's two neighbours on the grid, the even one if both are as
near. -/
def Rounding.onGrid (interval : Rounding) (exponent : Int) : Option Scaled :=
  let numerator := interval.value * tenTo (-exponent).toNat
  let denominator := interval.denominator * tenTo exponent.toNat
  let below := numerator / denominator
  let twice := 2 * (numerator % denominator)
  let nearBelow := twice < denominator || (twice == denominator && below % 2 == 0)
  let (near, far) := if nearBelow then (below, below + 1) else (below + 1, below)
  if interval.holds near exponent then some ⟨near, exponent⟩
  else if interval.holds far exponent then some ⟨far, exponent⟩
  else none

/-- The first hit on the grids for `count`, `count + 1`, … digits; seventeen digits
always suffice. -/
def Rounding.search (interval : Rounding) (leading : Int) : Nat → Nat → Scaled
  | 0, _ => ⟨interval.value / interval.denominator, 0⟩
  | fuel + 1, count =>
    match interval.onGrid (leading + 1 - count) with
    | some found => found
    | none => interval.search leading fuel (count + 1)

/-- The shortest decimal form of `mantissa * 2 ^ exponent`. -/
def shortest (mantissa : Nat) (exponent : Int) : Scaled :=
  let interval := Rounding.of mantissa exponent
  interval.search (leadingExponent interval.value interval.denominator) 17 1

/-- The sign, mantissa and exponent of a finite number in double precision. -/
def partsOf (f : Float) : Bool × Nat × Int :=
  let bits : Nat := f.toBits.toNat
  let fraction : Nat := bits % twoTo 52
  let biased : Nat := bits / twoTo 52 % twoTo 11
  (bits / twoTo 63 == 1,
    if biased == 0 then fraction else fraction + twoTo 52,
    if biased == 0 then -1074 else (biased : Int) - 1075)

end ShellCompletion.Decimal
