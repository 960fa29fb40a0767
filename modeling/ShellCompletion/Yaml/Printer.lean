import ShellCompletion.Json.Printer
import ShellCompletion.Yaml.Cursor
import ShellCompletion.Yaml.Schema

/-!
# Writing YAML

JSON values as indented YAML. A text is written plainly where it would be read back as
the same text, between quotes elsewhere, and as a literal block if it has several
lines. The items of a list under a key are not indented.
-/

namespace ShellCompletion.Yaml

/-! ## What a text is made of -/

/-- Whether a character is written as it is between double quotes and elsewhere. -/
def isPrintable (c : Char) : Bool :=
  let code := c.toNat
  c == '\n' || (0x20 ≤ code && code ≤ 0x7E) ||
    (0xA0 ≤ code && code ≤ 0xFFFD && code != 0xFEFF) || 0x10000 ≤ code

/-- Whether a condition holds for two characters that follow each other. -/
def anyAdjacent (p : Char → Char → Bool) : List Char → Bool
  | a :: b :: rest => p a b || anyAdjacent p (b :: rest)
  | _ => false

/-- Whether a text has a character of a kind at its start or its end. -/
def atEdge (p : Char → Bool) (text : List Char) : Bool :=
  text.head?.any p || text.getLast?.any p

/-- Whether the start of a text would be taken for something other than a plain
scalar. -/
def startsLikeMark (text : List Char) : Bool :=
  ['-', '-', '-'].isPrefixOf text || ['.', '.', '.'].isPrefixOf text ||
    match text with
    | [] => false
    | c :: rest =>
      "#,[]\x7b\x7d&*!|>\x27\"%@\x60".toList.contains c ||
        ("?:-".toList.contains c && atGap rest)

/-- Whether a plain scalar would end inside a text. -/
def endsInside : List Char → Bool
  | [] => false
  | c :: rest =>
    (c == ':' && atGap rest) || ((isSpace c || isBreak c) && rest.head? == some '#') ||
      endsInside rest

/-- Whether a text can only be written with escapes: it has characters that cannot be
shown, or a blank before a line break. -/
def needsEscapes (text : List Char) : Bool :=
  text.any (!isPrintable ·) || anyAdjacent (fun a b => a == ' ' && isBreak b) text

/-- Whether a text may be written without quotes. -/
def isPlain (text : List Char) : Bool :=
  !needsEscapes text && !text.any isBreak && !atEdge (· == ' ') text &&
    !startsLikeMark text && !endsInside text

/-- Whether a text may be written as lines. -/
def isBlock (text : List Char) : Bool :=
  !needsEscapes text && text.getLast? != some ' '

/-- Whether a text may be written between single quotes. -/
def isSingle (text : List Char) : Bool :=
  !needsEscapes text && !anyAdjacent (fun a b => isBreak a && b == ' ') text

/-! ## Scalars -/

/-- Blanks up to a column. -/
def padding (indent : Nat) : List Char :=
  List.replicate indent ' '

/-- The lines of a text with blanks before each that is not empty; `fresh` tells that
the text goes on at a line start. -/
def indented (indent : Nat) (fresh : Bool) : List Char → List Char
  | [] => []
  | c :: rest =>
    if isBreak c then c :: indented indent true rest
    else (if fresh then padding indent else []) ++ c :: indented indent false rest

/-- A text between single quotes. -/
def single (indent : Nat) (text : List Char) : String :=
  let lines := indented indent false (text.flatMap fun c => if c == '\x27' then [c, c] else [c])
  let last := if text.getLast?.any isBreak then padding indent else []
  String.ofList (['\x27'] ++ lines ++ last ++ ['\x27'])

/-- The last hexadecimal digits of a number. -/
def hexDigits : Nat → Nat → List Char
  | 0, _ => []
  | width + 1, code => hexDigits width (code / 16) ++ [(Nat.digitChar (code % 16)).toUpper]

/-- A character between double quotes. -/
def escaped (c : Char) : List Char :=
  if isPrintable c && !isBreak c && c != '"' && c != '\\' then [c]
  else
    let letters := [('\x00', '0'), ('\x07', 'a'), ('\x08', 'b'), ('\t', 't'), ('\n', 'n'),
      ('\x0b', 'v'), ('\x0c', 'f'), ('\r', 'r'), ('\x1b', 'e'), ('"', '"'), ('\\', '\\'),
      ('\u0085', 'N'), ('\u2028', 'L'), ('\u2029', 'P')]
    match letters.lookup c with
    | some letter => ['\\', letter]
    | none =>
      if c.toNat ≤ 0xFF then '\\' :: 'x' :: hexDigits 2 c.toNat
      else if c.toNat ≤ 0xFFFF then '\\' :: 'u' :: hexDigits 4 c.toNat
      else '\\' :: 'U' :: hexDigits 8 c.toNat

/-- A text between double quotes. -/
def double (text : List Char) : String :=
  String.ofList (['"'] ++ text.flatMap escaped ++ ['"'])

/-- A text as lines. The mark tells the indentation where the first line hides it, and
what becomes of the line breaks at the end. -/
def literal (indent : Nat) (text : List Char) : String :=
  let increment := if text.head?.any fun c => c == ' ' || isBreak c then ['2'] else []
  let chomping := match text.reverse with
    | [] => ['-']
    | last :: before =>
      if !isBreak last then ['-']
      else if before.isEmpty || before.head?.any isBreak then ['+']
      else []
  String.ofList (['|'] ++ increment ++ chomping ++ ['\n'] ++ indented indent true text)

/-- A text as a scalar whose further lines have an indentation. -/
def scalar (indent : Nat) (text : String) : String :=
  let characters := text.toList
  if characters.contains '\n' && isBlock characters then literal indent characters
  else if !characters.contains '\n' && !isAmbiguous text && isPlain characters then text
  else if !characters.contains '\n' && isSingle characters then single indent characters
  else double characters

/-- A text as the key of an entry on its line. -/
def isSimpleKey (text : String) : Bool :=
  text.utf8ByteSize ≤ 128 && !text.toList.any isBreak

/-! ## Collections -/

/-- A text with a line break at its end, unless it ends with one. -/
def endLine (text : String) : String :=
  if text.toList.getLast?.any isBreak then text else text ++ "\n"

/-- Joins texts, all but the first after blanks up to a column. -/
def stack (indent : Nat) (texts : List String) : String :=
  (String.ofList (padding indent)).intercalate texts

mutual

/-- The lines of a value whose first line has begun at a column. -/
def lines (indent : Nat) : Json → String
  | .list (item :: rest) => stack indent (listItems indent (item :: rest))
  | .object (entry :: rest) => stack indent (objectEntries indent (entry :: rest))
  | .text text => endLine (scalar indent text)
  | value => value.compact ++ "\n"

/-- The lines of a value after the key of an entry at a column. -/
def linesAfterKey (indent : Nat) : Json → String
  | .list (item :: rest) =>
    "\n" ++ String.ofList (padding indent) ++ stack indent (listItems indent (item :: rest))
  | .object (entry :: rest) =>
    "\n" ++ String.ofList (padding (indent + 2)) ++
      stack (indent + 2) (objectEntries (indent + 2) (entry :: rest))
  | .text text => " " ++ endLine (scalar (indent + 2) text)
  | value => " " ++ value.compact ++ "\n"

/-- The lines of each item of a list at a column. -/
def listItems (indent : Nat) : List Json → List String
  | [] => []
  | item :: rest => ("- " ++ lines (indent + 2) item) :: listItems indent rest

/-- The lines of each entry of an object at a column. -/
def objectEntries (indent : Nat) : List (String × Json) → List String
  | [] => []
  | (key, value) :: rest =>
    (if isSimpleKey key then
      (if key.isEmpty then "\x27\x27" else scalar indent key) ++ ":" ++ linesAfterKey indent value
    else
      "? " ++ endLine (scalar (indent + 2) key) ++ String.ofList (padding indent) ++ ": " ++
        lines (indent + 2) value) :: objectEntries indent rest

end

/-- A value as the content of a YAML document. -/
def write (value : Json) : String :=
  lines 0 value

end ShellCompletion.Yaml
