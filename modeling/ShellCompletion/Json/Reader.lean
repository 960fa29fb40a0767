import ShellCompletion.Json.Basic

/-!
# Reading JSON text

A JSON text is read from the left; what follows the value is handed back, so that a
caller can look at the value before it minds the rest. Lists and maps may nest 127
levels deep.
-/

namespace ShellCompletion.Json

/-- Whether a character may stand between the parts of a JSON text. -/
def isSpace (c : Char) : Bool :=
  c == ' ' || c == '\t' || c == '\n' || c == '\r'

/-- The text from its first character that is no space. -/
def skipSpaces (text : List Char) : List Char :=
  text.dropWhile isSpace

/-- The value of a hexadecimal digit. -/
def hexValue? (c : Char) : Option Nat :=
  if c.isDigit then some (c.toNat - '0'.toNat)
  else if 'a' ≤ c && c ≤ 'f' then some (c.toNat - 'a'.toNat + 10)
  else if 'A' ≤ c && c ≤ 'F' then some (c.toNat - 'A'.toNat + 10)
  else none

/-- The value of several hexadecimal digits. -/
def hexNumber? (digits : List Char) : Option Nat :=
  digits.foldlM (fun value c => (hexValue? c).map (16 * value + ·)) 0

/-- The character that a backslash and the given letter stand for. -/
def simpleEscape? : Char → Option Char
  | '"' => some '"'
  | '\\' => some '\\'
  | '/' => some '/'
  | 'b' => some '\x08'
  | 'f' => some '\x0c'
  | 'n' => some '\n'
  | 'r' => some '\r'
  | 't' => some '\t'
  | _ => none

/-- The character of a pair of surrogate codes. -/
def surrogatePair? (high low : Nat) : Option Char :=
  if 0xDC00 ≤ low && low ≤ 0xDFFF then
    some (Char.ofNat (0x10000 + (high - 0xD800) * 0x400 + (low - 0xDC00)))
  else none

/-- Reads a text after its opening quote, up to its closing one. -/
def readText : List Char → Option (List Char × List Char)
  | [] => none
  | '"' :: rest => some ([], rest)
  | '\\' :: 'u' :: a :: b :: c :: d :: rest =>
    match hexNumber? [a, b, c, d] with
    | none => none
    | some code =>
      if 0xD800 ≤ code && code ≤ 0xDBFF then
        match rest with
        | '\\' :: 'u' :: e :: f :: g :: h :: rest => do
          let low ← hexNumber? [e, f, g, h]
          let character ← surrogatePair? code low
          let (more, rest) ← readText rest
          pure (character :: more, rest)
        | _ => none
      else if 0xDC00 ≤ code && code ≤ 0xDFFF then none
      else do
        let (more, rest) ← readText rest
        pure (Char.ofNat code :: more, rest)
  | '\\' :: letter :: rest => do
    let character ← simpleEscape? letter
    let (more, rest) ← readText rest
    pure (character :: more, rest)
  | c :: rest =>
    if c.toNat < 0x20 || c == '\\' then none
    else do
      let (more, rest) ← readText rest
      pure (c :: more, rest)

/-- The value of a decimal digit. -/
def digitValue (c : Char) : Nat :=
  c.toNat - '0'.toNat

/-- Extends a number by digits as long as the result fits 64 bits, and hands back the
digits left over. -/
def takeDigits (value : Nat) : List Char → Nat × List Char
  | [] => (value, [])
  | c :: rest =>
    if value * 10 + digitValue c ≤ maxUnsigned then takeDigits (value * 10 + digitValue c) rest
    else (value, c :: rest)

/-- Divides by `10 ^ 308` while the power of ten left is smaller than that; at most
`fuel` times. -/
def scaleDown : Nat → Float → Nat → Float × Nat
  | 0, f, power => (f, power)
  | fuel + 1, f, power =>
    if power ≤ 308 || f == 0 then (f, power)
    else scaleDown fuel (f / Float.ofScientific 1 false 308) (power - 308)

/-- `digits * 10 ^ exponent` in double precision, by one multiplication or by
divisions; none if it is too great. -/
def scaled? (digits : Nat) (exponent : Int) : Option Float :=
  let f := Float.ofNat digits
  if 0 ≤ exponent then
    if exponent ≤ 308 then
      let product := f * Float.ofScientific 1 false exponent.toNat
      if product.isInf then none else some product
    else if f == 0 then some f
    else none
  else
    let (f, power) := scaleDown 20 f exponent.natAbs
    if f == 0 then some f else some (f / Float.ofScientific 1 false power)

/-- The parts of a number: digits before the point, digits after it, exponent. -/
structure NumberText where
  /-- The digits before the point. -/
  whole : List Char
  /-- The digits after the point, if there is one. -/
  fraction : Option (List Char)
  /-- The sign and digits of the exponent, if there is one. -/
  exponent : Option (Bool × List Char)

/-- The number a text of several parts stands for, sign apart. Digits that do not fit
64 bits are dropped, those before the point raising the power of ten. -/
def NumberText.magnitude? (text : NumberText) : Option Float :=
  let (value, dropped) := takeDigits 0 text.whole
  let fraction := text.fraction.getD []
  let (digits, unread) := takeDigits value fraction
  let power : Int := (dropped.length : Int) - ((fraction.length - unread.length : Nat) : Int)
  match text.exponent with
  | none => scaled? digits power
  | some (negative, written) =>
    let exponent := (written.foldl (fun value c => value * 10 + digitValue c) 0 : Nat)
    if 0x80000000 ≤ exponent then
      if digits != 0 && !negative then none else some 0
    else scaled? digits (if negative then power - exponent else power + exponent)

/-- The number of a text with the given sign. -/
def NumberText.number? (negative : Bool) (text : NumberText) : Option Number :=
  let value := text.whole.foldl (fun value c => value * 10 + digitValue c) 0
  if text.fraction.isNone && text.exponent.isNone && value ≤ maxUnsigned
      && !(negative && (value == 0 || maxNegative < value)) then
    some (.int (if negative then -value else value))
  else
    text.magnitude?.map fun f => .float (if negative then -f else f)

/-- Reads the digits after a point or an exponent mark, of which there must be one. -/
def readDigits? (text : List Char) : Option (List Char × List Char) :=
  match text.span Char.isDigit with
  | ([], _) => none
  | found => some found

/-- Reads the exponent of a number, if there is one. -/
def readExponent? : List Char → Option (Option (Bool × List Char) × List Char)
  | mark :: rest =>
    if mark == 'e' || mark == 'E' then
      let (negative, rest) := match rest with
        | '-' :: rest => (true, rest)
        | '+' :: rest => (false, rest)
        | rest => (false, rest)
      (readDigits? rest).map fun (digits, rest) => (some (negative, digits), rest)
    else some (none, mark :: rest)
  | [] => some (none, [])

/-- Reads a number without its sign. A number has no leading zeros. -/
def readNumberText? (text : List Char) : Option (NumberText × List Char) := do
  let (whole, rest) ← readDigits? text
  if whole.head? == some '0' && whole.length != 1 then none
  let (fraction, rest) ← match rest with
    | '.' :: rest => (readDigits? rest).map fun (digits, rest) => (some digits, rest)
    | rest => some (none, rest)
  let (exponent, rest) ← readExponent? rest
  pure (⟨whole, fraction, exponent⟩, rest)

/-- Reads a number. -/
def readNumber? (text : List Char) : Option (Data × List Char) :=
  let (negative, text) := match text with
    | '-' :: rest => (true, rest)
    | rest => (false, rest)
  do
    let (parts, rest) ← readNumberText? text
    let number ← parts.number? negative
    pure (.number number, rest)

/-- Reads one of the words `null`, `true` and `false`. -/
def readWord? : List Char → Option (Data × List Char)
  | 'n' :: 'u' :: 'l' :: 'l' :: rest => some (.null, rest)
  | 't' :: 'r' :: 'u' :: 'e' :: rest => some (.bool true, rest)
  | 'f' :: 'a' :: 'l' :: 's' :: 'e' :: rest => some (.bool false, rest)
  | _ => none

mutual

/-- Reads a value; `depth` more levels may be opened, and `fuel` is greater than the
length of the text. -/
def readValue (fuel depth : Nat) (text : List Char) : Option (Data × List Char) :=
  match fuel with
  | 0 => none
  | fuel + 1 =>
    match skipSpaces text with
    | '"' :: rest => (readText rest).map fun (value, rest) => (.text (String.ofList value), rest)
    | '[' :: rest =>
      if depth == 0 then none
      else match skipSpaces rest with
        | ']' :: rest => some (.list [], rest)
        | rest => (readItems fuel (depth - 1) rest).map fun (items, rest) => (.list items, rest)
    | '\x7b' :: rest =>
      if depth == 0 then none
      else match skipSpaces rest with
        | '\x7d' :: rest => some (.map [], rest)
        | rest => (readEntries fuel (depth - 1) rest).map fun (es, rest) => (.map es, rest)
    | c :: rest =>
      if c == '-' || c.isDigit then readNumber? (c :: rest) else readWord? (c :: rest)
    | [] => none

/-- Reads the items of a list up to its end. -/
def readItems (fuel depth : Nat) (text : List Char) : Option (List Data × List Char) :=
  match fuel with
  | 0 => none
  | fuel + 1 =>
    match readValue fuel depth text with
    | none => none
    | some (item, rest) =>
      match skipSpaces rest with
      | ']' :: rest => some ([item], rest)
      | ',' :: rest =>
        (readItems fuel depth rest).map fun (items, rest) => (item :: items, rest)
      | _ => none

/-- Reads the entries of a map up to its end. -/
def readEntries (fuel depth : Nat) (text : List Char) :
    Option (List (Data × Data) × List Char) :=
  match fuel with
  | 0 => none
  | fuel + 1 =>
    match skipSpaces text with
    | '"' :: rest =>
      match readText rest with
      | none => none
      | some (key, rest) =>
        match skipSpaces rest with
        | ':' :: rest =>
          match readValue fuel depth rest with
          | none => none
          | some (value, rest) =>
            let entry := (Data.text (String.ofList key), value)
            match skipSpaces rest with
            | '\x7d' :: rest => some ([entry], rest)
            | ',' :: rest =>
              (readEntries fuel depth rest).map fun (entries, rest) => (entry :: entries, rest)
            | _ => none
        | _ => none
    | _ => none

end

/-- Reads the value at the start of a JSON text and hands back the text after it. -/
def read? (text : String) : Option (Data × List Char) :=
  readValue (2 * text.length + 2) 127 text.toList

/-- Reads a JSON text that holds one value and nothing more. -/
def readAll? (text : String) : Option Data := do
  let (value, rest) ← read? text
  if (skipSpaces rest).isEmpty then some value else none

end ShellCompletion.Json
