import ShellCompletion.Decimal.Shortest

/-!
# Decimal notation

How the shortest decimal form of a number is written: positionally with at least
one digit on either side of the point, or with an exponent where that would take
many zeros.
-/

namespace ShellCompletion.Decimal

/-- The least exponent of a first digit that is written positionally. -/
def leastPositional : Int := -5

/-- The least exponent of a first digit above those that are written positionally. -/
def positionalLimit : Int := 16

/-- Whether a number whose first digit counts `10 ^ leading` is written positionally. -/
def isPositional (leading : Int) : Bool :=
  leastPositional ≤ leading && leading < positionalLimit

/-- `count` zeros. -/
def zeros (count : Nat) : List Char :=
  List.replicate count '0'

/-- The digits with a point after the one that counts ones. -/
def positionalDigits (digits : List Char) (leading : Int) : List Char :=
  if leading < 0 then
    ['0', '.'] ++ zeros (-leading - 1).toNat ++ digits
  else
    let whole := leading.toNat + 1
    if digits.length ≤ whole then digits ++ zeros (whole - digits.length) ++ ['.', '0']
    else digits.take whole ++ ['.'] ++ digits.drop whole

/-- The digits with a point after the first of several, and a signed exponent. -/
def exponentDigits (digits : List Char) (leading : Int) : List Char :=
  let mantissa := match digits with
    | first :: second :: rest => first :: '.' :: second :: rest
    | short => short
  let sign := if leading < 0 then '-' else '+'
  mantissa ++ ['e', sign] ++ Nat.toDigits 10 leading.natAbs

/-- The digits of a number less the zeros at their end. -/
def significantDigits (n : Nat) : List Char :=
  ((Nat.toDigits 10 n).reverse.dropWhile (· == '0')).reverse

/-- The text of a finite number in double precision. -/
def write (f : Float) : String :=
  let (negative, mantissa, exponent) := partsOf f
  let sign := if negative then ['-'] else []
  if mantissa == 0 then String.ofList (sign ++ ['0', '.', '0'])
  else
    let decimal := shortest mantissa exponent
    let leading := decimal.exponent + digitCount decimal.digits - 1
    let digits := significantDigits decimal.digits
    String.ofList (sign ++
      if isPositional leading then positionalDigits digits leading
      else exponentDigits digits leading)

end ShellCompletion.Decimal
