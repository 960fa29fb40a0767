import ShellCompletion.Yaml.Cursor
import ShellCompletion.Json.Reader

/-!
# Scanning YAML scalars

Plain, quoted and block scalars. Where a plain or quoted scalar continues on another
line, a single line break becomes a blank, and of several the first is dropped.
-/

namespace ShellCompletion.Yaml

/-- What stands between two words of a scalar. -/
inductive Gap where
  /-- Blanks within a line. -/
  | blanks (text : List Char)
  /-- Line breaks; the first is absent where it was escaped. -/
  | breaks (first : Option Char) (more : List Char)

/-- What a gap becomes in the scalar. -/
def Gap.text : Gap → List Char
  | .blanks text => text
  | .breaks none more => more
  | .breaks (some first) more =>
    if first == '\n' then
      if more.isEmpty then [' '] else more
    else first :: more

/-- Whether the gap goes beyond a line. -/
def Gap.isBroken : Gap → Bool
  | .blanks _ => false
  | .breaks .. => true

/-- Skips the blanks at a line start; tabs may only stand from a column onward. -/
def skipIndent? (tabColumn : Nat) (cursor : Cursor) : Option Cursor :=
  let (run, next) := cursor.spanWhile isSpace
  match run.findIdx? (· == '\t') with
  | some place => if cursor.column + place < tabColumn then none else some next
  | none => some next

/-- The line breaks of a gap after its first one. -/
def moreBreaks (tabColumn : Nat) : Nat → Cursor → Option (List Char × Cursor)
  | 0, _ => none
  | fuel + 1, cursor => do
    let cursor ← skipIndent? tabColumn cursor
    match cursor.lineBreak? with
    | none => some ([], cursor)
    | some (c, next) => (moreBreaks tabColumn fuel next).map fun (more, next) => (c :: more, next)

/-- The gap that starts here. -/
def scanGap (tabColumn : Nat) (cursor : Cursor) : Option (Gap × Cursor) :=
  let (blanks, next) := cursor.spanWhile isSpace
  match next.lineBreak? with
  | none => some (.blanks blanks, next)
  | some (first, next) =>
    (moreBreaks tabColumn (next.rest.length + 1) next).map fun (more, next) =>
      (.breaks (some first) more, next)

/-! ## Plain scalars -/

/-- Whether a character has a meaning of its own between brackets. -/
def isFlowMark (c : Char) : Bool :=
  c == ',' || c == '[' || c == ']' || c == '\x7b' || c == '\x7d'

/-- A word of a plain scalar: it ends at a gap, at a colon before a gap and, between
brackets, at a mark. -/
def plainWord (inFlow : Bool) : List Char → Option (List Char)
  | [] => some []
  | c :: rest =>
    if isSpace c || isBreak c then some []
    else if c == ':' && inFlow && rest.head?.any (fun d => isFlowMark d || d == '?') then none
    else if (c == ':' && atGap rest) || (inFlow && isFlowMark c) then some []
    else (plainWord inFlow rest).map (c :: ·)

/-- A plain scalar with the place after it. -/
structure PlainScalar where
  /-- The text. -/
  text : List Char
  /-- Whether the place is on a line after that of the last word. -/
  broken : Bool
  /-- The place after the scalar and the gap that follows it. -/
  after : Cursor

/-- The words of a plain scalar after a gap. A plain scalar ends before a comment or a
document mark, and outside brackets before a line indented less than `indent`. -/
def plainWords (inFlow : Bool) (indent : Nat) :
    Nat → Gap → Cursor → Option PlainScalar
  | 0, _, _ => none
  | fuel + 1, gap, cursor =>
    if cursor.atDocumentMark || cursor.rest.head? == some '#' then
      some ⟨[], gap.isBroken, cursor⟩
    else do
      let word ← plainWord inFlow cursor.rest
      if word.isEmpty then return ⟨[], gap.isBroken, cursor⟩
      let text := gap.text ++ word
      let cursor := cursor.skip word.length
      if cursor.rest.isEmpty || !atGap cursor.rest then return ⟨text, false, cursor⟩
      let (gap, cursor) ← scanGap indent cursor
      if !inFlow && cursor.column < indent then return ⟨text, gap.isBroken, cursor⟩
      let more ← plainWords inFlow indent fuel gap cursor
      return { more with text := text ++ more.text }

/-- The plain scalar that starts here. -/
def scanPlain (inFlow : Bool) (indent : Nat) (cursor : Cursor) : Option PlainScalar :=
  plainWords inFlow indent (cursor.rest.length + 1) (.blanks []) cursor

/-! ## Quoted scalars -/

/-- The character that a backslash and the given letter stand for. -/
def escape? : Char → Option Char
  | '0' => some '\x00'
  | 'a' => some '\x07'
  | 'b' => some '\x08'
  | 't' => some '\t'
  | '\t' => some '\t'
  | 'n' => some '\n'
  | 'v' => some '\x0b'
  | 'f' => some '\x0c'
  | 'r' => some '\r'
  | 'e' => some '\x1b'
  | ' ' => some ' '
  | '"' => some '"'
  | '/' => some '/'
  | '\\' => some '\\'
  | 'N' => some '\u0085'
  | '_' => some '\u00a0'
  | 'L' => some '\u2028'
  | 'P' => some '\u2029'
  | _ => none

/-- The number of digits after a backslash and the given letter, if that writes a
character by its code. -/
def codeLength? : Char → Option Nat
  | 'x' => some 2
  | 'u' => some 4
  | 'U' => some 8
  | _ => none

/-- The character with a code. -/
def charOfCode? (code : Nat) : Option Char :=
  if code.isValidChar then some (Char.ofNat code) else none

/-- The escaped character that starts with a backslash here, and the place after it. -/
def scanEscape (cursor : Cursor) : Option (Char × Cursor) := do
  let letter ← cursor.rest[1]?
  match codeLength? letter with
  | none => (escape? letter).map fun c => (c, cursor.skip 2)
  | some length =>
    let digits := (cursor.rest.drop 2).take length
    if digits.length < length then none
    let c ← charOfCode? (← Json.hexNumber? digits)
    some (c, cursor.skip (2 + length))

/-- A word of a quoted scalar: its text, the place after it, and whether it ends with
an escaped line break. -/
def quotedWord (single : Bool) : Nat → Cursor → Option (List Char × Bool × Cursor)
  | 0, _ => none
  | fuel + 1, cursor =>
    match cursor.rest with
    | [] => some ([], false, cursor)
    | c :: rest =>
      if isSpace c || isBreak c then some ([], false, cursor)
      else if single && c == '\x27' && rest.head? == some '\x27' then
        (quotedWord single fuel (cursor.skip 2)).map fun (text, found) => (c :: text, found)
      else if c == (if single then '\x27' else '"') then some ([], false, cursor)
      else if !single && c == '\\' then
        match (cursor.skip 1).lineBreak? with
        | some (_, next) => some ([], true, next)
        | none => do
          let (c, next) ← scanEscape cursor
          (quotedWord single fuel next).map fun (text, found) => (c :: text, found)
      else
        (quotedWord single fuel (cursor.skip 1)).map fun (text, found) => (c :: text, found)

/-- The rest of a quoted scalar and the place after its closing quote. No document
mark may stand at the start of a line of it. -/
def quotedWords (single : Bool) : Nat → Cursor → Option (List Char × Cursor)
  | 0, _ => none
  | fuel + 1, cursor => do
    if cursor.atDocumentMark || cursor.rest.isEmpty then none
    let (word, escaped, cursor) ← quotedWord single (cursor.rest.length + 1) cursor
    if cursor.rest.head? == some (if single then '\x27' else '"') then
      return (word, cursor.skip 1)
    let (gap, cursor) ←
      if escaped then
        (moreBreaks 0 (cursor.rest.length + 1) cursor).map fun (more, next) =>
          (Gap.breaks none more, next)
      else scanGap 0 cursor
    let (more, cursor) ← quotedWords single fuel cursor
    return (word ++ gap.text ++ more, cursor)

/-- The quoted scalar whose opening quote is here, and the place after it. -/
def scanQuoted (single : Bool) (cursor : Cursor) : Option (List Char × Cursor) :=
  quotedWords single (cursor.rest.length + 1) (cursor.skip 1)

/-! ## Block scalars -/

/-- What becomes of the line breaks at the end of a block scalar. -/
inductive Chomping where
  /-- One is kept. -/
  | clip
  /-- None is kept. -/
  | strip
  /-- All are kept. -/
  | keep
deriving DecidableEq

/-- The chomping that a character asks for. -/
def Chomping.ofChar? (c : Char) : Option Chomping :=
  if c == '+' then some .keep else if c == '-' then some .strip else none

/-- The chomping and the indentation that stand after the mark of a block scalar, in
either order, with the number of characters they take. -/
def blockHeader (text : List Char) : Option (Chomping × Option Nat × Nat) :=
  let digit? (c : Char) : Option Nat := if c.isDigit then some (Json.digitValue c) else none
  let chomping? (at? : Option Char) := at?.bind Chomping.ofChar?
  let (chomping, increment, length) :=
    match chomping? text[0]? with
    | some chomping =>
      match text[1]?.bind digit? with
      | some digit => (chomping, some digit, 2)
      | none => (chomping, none, 1)
    | none =>
      match text[0]?.bind digit? with
      | none => (.clip, none, 0)
      | some digit =>
        match chomping? text[1]? with
        | some chomping => (chomping, some digit, 2)
        | none => (.clip, some digit, 1)
  if increment == some 0 then none else some (chomping, increment, length)

/-- The empty lines at a place of a block scalar: their line breaks, the greatest
column reached, and the place at the first line that is not empty. The indentation is
unknown before the first such line. -/
def emptyLines (indent : Option Nat) :
    Nat → Nat → Cursor → Option (List Char × Nat × Cursor)
  | 0, _, _ => none
  | fuel + 1, deepest, cursor =>
    let blanks := cursor.rest.takeWhile (· == ' ')
    let cursor := cursor.skip (match indent with
      | none => blanks.length
      | some indent => min blanks.length (indent - cursor.column))
    let deepest := max deepest cursor.column
    if cursor.rest.head? == some '\t' && indent.all (cursor.column < ·) then none
    else match cursor.lineBreak? with
      | none => some ([], deepest, cursor)
      | some (c, next) =>
        (emptyLines indent fuel deepest next).map fun (breaks, found) => (c :: breaks, found)

/-- The parts of a block scalar that its next line is joined to. -/
structure BlockTail where
  /-- The line break of the last line. -/
  lineBreak : Option Char
  /-- Whether the last line starts with a blank. -/
  startsBlank : Bool
  /-- The line breaks of the empty lines after it. -/
  empty : List Char

/-- What joins a line that starts with a blank, or does not, to the lines before. -/
def BlockTail.join (tail : BlockTail) (literal startsBlank : Bool) : List Char :=
  if !literal && tail.lineBreak == some '\n' && !tail.startsBlank && !startsBlank then
    if tail.empty.isEmpty then [' '] else tail.empty
  else tail.lineBreak.toList ++ tail.empty

/-- What is left of the line breaks at the end of a block scalar. -/
def BlockTail.chomp (tail : BlockTail) : Chomping → List Char
  | .strip => []
  | .clip => tail.lineBreak.toList
  | .keep => tail.lineBreak.toList ++ tail.empty

/-- The lines of a block scalar from a line indented like it, and the place after. -/
def blockLines (literal : Bool) (chomping : Chomping) (indent : Nat) :
    Nat → BlockTail → Cursor → Option (List Char × Cursor)
  | 0, _, _ => none
  | fuel + 1, tail, cursor =>
    if cursor.column != indent || cursor.rest.isEmpty then some (tail.chomp chomping, cursor)
    else do
      let startsBlank := cursor.rest.head?.any isSpace
      let (line, cursor) := cursor.spanWhile (!isBreak ·)
      let (lineBreak, cursor) := match cursor.lineBreak? with
        | some (c, next) => (some c, next)
        | none => (none, cursor)
      let (empty, _, cursor) ← emptyLines (some indent) (cursor.rest.length + 1) 0 cursor
      let (more, cursor) ←
        blockLines literal chomping indent fuel ⟨lineBreak, startsBlank, empty⟩ cursor
      return (tail.join literal startsBlank ++ line ++ more, cursor)

/-- The block scalar whose mark is here, inside a collection whose items may start at
`least` or further right, and the place after it. -/
def scanBlock (literal : Bool) (least : Nat) (cursor : Cursor) : Option (List Char × Cursor) := do
  let cursor := cursor.skip 1
  let (chomping, increment, length) ← blockHeader cursor.rest
  let cursor ← (cursor.skip length).nextLine?
  let known := increment.map (least - 1 + ·)
  let (empty, deepest, cursor) ← emptyLines known (cursor.rest.length + 1) 0 cursor
  let indent := known.getD (max deepest (max least 1))
  blockLines literal chomping indent (cursor.rest.length + 1) ⟨none, false, empty⟩ cursor

end ShellCompletion.Yaml
