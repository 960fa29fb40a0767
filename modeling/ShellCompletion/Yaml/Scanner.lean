import ShellCompletion.Yaml.Property

/-!
# Scanning YAML

The tokens of a YAML text. A scalar or bracket may turn out to be the key of a map
only when a colon follows, so the places where that may be so are remembered, and the
missing tokens are put before them then. Such a key stands on one line and takes at most
1024 bytes.

A text is read a window at a time, so a character that may not stand in it hides the
whole window but not the tokens before.
-/

namespace ShellCompletion.Yaml

/-- A token that may turn out to start a key. -/
structure KeyCandidate where
  /-- The number of the token. -/
  number : Nat
  /-- Where the token starts. -/
  start : Cursor
  /-- Whether nothing but a key may stand there. -/
  required : Bool

/-- Whether a key may still start at the candidate. -/
def KeyCandidate.isOpen (candidate : KeyCandidate) (cursor : Cursor) : Bool :=
  candidate.start.line == cursor.line && cursor.index ≤ candidate.start.index + 1024

/-- How far a text has been scanned. -/
structure Scan where
  /-- The place reached. -/
  cursor : Cursor
  /-- The tokens found. -/
  tokens : Array Token
  /-- The columns of the open block collections, innermost first. -/
  indents : List Nat
  /-- The candidate of the block level and of each open bracket, innermost first. -/
  candidates : List (Option KeyCandidate)
  /-- Whether a key may start here. -/
  keyAllowed : Bool
  /-- Whether something follows the text that cannot be read. -/
  isCut : Bool

namespace Scan

/-- A scan at the start of a text. -/
def ofText (text : List Char) (isCut : Bool) : Scan :=
  ⟨⟨text, 0, 0, 0⟩, #[], [], [none], true, isCut⟩

/-- Whether the place is between brackets. -/
def inFlow (scan : Scan) : Bool :=
  1 < scan.candidates.length

/-- The least column of an item of a new block collection. -/
def leastIndent (scan : Scan) : Nat :=
  match scan.indents with
  | [] => 0
  | indent :: _ => indent + 1

/-- The scan with one more token. -/
def emit (scan : Scan) (token : Token) : Scan :=
  { scan with tokens := scan.tokens.push token }

/-- The scan with one more token, at another place, where a key may start or not. -/
def add (scan : Scan) (token : Token) (cursor : Cursor) (keyAllowed : Bool) : Scan :=
  { scan.emit token with cursor, keyAllowed }

/-- Skips blanks, comments and line breaks, and a byte order mark at the start of each
line, which takes up a column. Tabs do not indent block collections. -/
def skipGap : Nat → Scan → Scan
  | 0, scan => scan
  | fuel + 1, scan =>
    let cursor := scan.cursor
    let cursor :=
      if cursor.column == 0 && cursor.rest.head? == some '\ufeff' then cursor.skip 1
      else cursor
    let tabs := scan.inFlow || !scan.keyAllowed
    let cursor := cursor.skipWhile fun c => c == ' ' || (tabs && c == '\t')
    let cursor :=
      if cursor.rest.head? == some '#' then cursor.skipWhile (!isBreak ·) else cursor
    match cursor.lineBreak? with
    | some (_, next) =>
      skipGap fuel { scan with cursor := next, keyAllowed := scan.keyAllowed || !scan.inFlow }
    | none => { scan with cursor }

/-- Gives up the candidates that are too far away. -/
def dropStale (scan : Scan) : Option Scan := do
  let candidates ← scan.candidates.mapM fun candidate? =>
    match candidate? with
    | none => some none
    | some candidate =>
      if candidate.isOpen scan.cursor then some (some candidate)
      else if candidate.required then none
      else some none
  return { scan with candidates }

/-- Closes the block collections to the right of a column, or all of them. -/
def unroll (scan : Scan) (column : Option Nat) : Scan :=
  if scan.inFlow then scan
  else
    let closed := scan.indents.takeWhile fun indent => column.all (· < indent)
    { scan with
      indents := scan.indents.drop closed.length
      tokens := scan.tokens ++ (closed.map fun _ => Token.blockEnd) }

/-- Opens a block collection at a column unless one is open there; its token becomes
the token with the given number. -/
def roll (scan : Scan) (column number : Nat) (token : Token) : Scan :=
  if scan.inFlow || column < scan.leastIndent then scan
  else
    { scan with
      indents := column :: scan.indents
      tokens := scan.tokens.insertIdxIfInBounds number token }

/-- Remembers the next token as one that may start a key. -/
def saveKey (scan : Scan) : Option Scan :=
  if !scan.keyAllowed then some scan
  else
    let required := !scan.inFlow && scan.indents.head? == some scan.cursor.column
    match scan.candidates with
    | some ⟨_, _, true⟩ :: _ => none
    | _ :: outer =>
      some { scan with candidates := some ⟨scan.tokens.size, scan.cursor, required⟩ :: outer }
    | [] => some scan

/-- Gives up the candidate of the innermost level. -/
def dropKey (scan : Scan) : Option Scan :=
  match scan.candidates with
  | some ⟨_, _, true⟩ :: _ => none
  | _ :: outer => some { scan with candidates := none :: outer }
  | [] => some scan

/-- Scans the mark of the start or end of a document, or of the end of the text. -/
def scanMark (scan : Scan) (token : Token) (length : Nat) : Option Scan := do
  let scan ← (scan.unroll none).dropKey
  return scan.add token (scan.cursor.skip length) false

/-- Scans the end of the text, which also ends its last line. -/
def scanEnd (scan : Scan) : Option Scan :=
  let cursor := scan.cursor
  let cursor := if cursor.column == 0 then cursor else ⟨[], cursor.index, cursor.line + 1, 0⟩
  { scan with cursor }.scanMark .streamEnd 0

/-- Scans an opening bracket. -/
def openFlow (scan : Scan) (token : Token) : Option Scan := do
  let scan ← scan.saveKey
  return { scan with candidates := none :: scan.candidates }.add token (scan.cursor.skip 1) true

/-- Scans a closing bracket. -/
def closeFlow (scan : Scan) (token : Token) : Option Scan := do
  let scan ← scan.dropKey
  let candidates := if scan.inFlow then scan.candidates.drop 1 else scan.candidates
  return { scan with candidates }.add token (scan.cursor.skip 1) false

/-- Scans the mark of an item of a block sequence. -/
def blockEntry (scan : Scan) : Option Scan := do
  if !scan.inFlow && !scan.keyAllowed then none
  let scan := scan.roll scan.cursor.column scan.tokens.size .blockSequenceStart
  let scan ← scan.dropKey
  return scan.add .blockEntry (scan.cursor.skip 1) true

/-- Scans the mark of a key. -/
def keyMark (scan : Scan) : Option Scan := do
  if !scan.inFlow && !scan.keyAllowed then none
  let scan := scan.roll scan.cursor.column scan.tokens.size .blockMappingStart
  let scan ← scan.dropKey
  return scan.add .key (scan.cursor.skip 1) (!scan.inFlow)

/-- Scans the mark of a value. The candidate of the level, if there is one, turns out
to be the key. -/
def valueMark (scan : Scan) : Option Scan :=
  match scan.candidates with
  | some candidate :: outer =>
    let scan := { scan with
      candidates := none :: outer
      tokens := scan.tokens.insertIdxIfInBounds candidate.number .key }
    let scan := scan.roll candidate.start.column candidate.number .blockMappingStart
    some (scan.add .value (scan.cursor.skip 1) false)
  | _ =>
    if !scan.inFlow && !scan.keyAllowed then none
    else
      let scan := scan.roll scan.cursor.column scan.tokens.size .blockMappingStart
      some (scan.add .value (scan.cursor.skip 1) (!scan.inFlow))

/-- Scans an anchor, an alias, a tag or a quoted scalar with a function that gives the
token and the place after it. -/
def property (scan : Scan) (read : Cursor → Option (Token × Cursor)) : Option Scan := do
  let scan ← scan.saveKey
  let (token, cursor) ← read scan.cursor
  return scan.add token cursor false

/-- Scans a quoted scalar. -/
def quotedScalar (scan : Scan) (single : Bool) : Option Scan :=
  scan.property fun cursor => (scanQuoted single cursor).map fun (text, next) =>
    (.scalar (String.ofList text) .quoted, next)

/-- Scans a block scalar. -/
def blockScalar (scan : Scan) (literal : Bool) : Option Scan := do
  let scan ← scan.dropKey
  let (text, cursor) ← scanBlock literal scan.leastIndent scan.cursor
  let style := if literal then ScalarStyle.literal else .folded
  return scan.add (.scalar (String.ofList text) style) cursor true

/-- Scans a plain scalar. -/
def plainScalar (scan : Scan) : Option Scan := do
  let scan ← scan.saveKey
  let found ← scanPlain scan.inFlow scan.leastIndent scan.cursor
  return scan.add (.scalar (String.ofList found.text) .plain) found.after found.broken

/-- Whether a plain scalar may start with a character before some text. -/
def startsPlain (inFlow : Bool) (c : Char) (rest : List Char) : Bool :=
  if c == '-' then !rest.head?.any isSpace
  else if c == '?' || c == ':' then !inFlow && !atGap rest
  else !(isSpace c || isBreak c || ",[]\x7b\x7d#&*!|>\x27\"%@\x60".toList.contains c)

/-- Scans the token at a character that is followed by some text. -/
def scanAt (scan : Scan) (c : Char) (rest : List Char) : Option Scan :=
  let cursor := scan.cursor
  if cursor.column == 0 && c == '%' then do
    let scan ← (scan.unroll none).dropKey
    let (token, cursor) ← scanDirective scan.cursor
    return scan.add token cursor false
  else if cursor.atMark '-' then scan.scanMark .documentStart 3
  else if cursor.atMark '.' then scan.scanMark .documentEnd 3
  else if c == '[' then scan.openFlow .flowSequenceStart
  else if c == '\x7b' then scan.openFlow .flowMappingStart
  else if c == ']' then scan.closeFlow .flowSequenceEnd
  else if c == '\x7d' then scan.closeFlow .flowMappingEnd
  else if c == ',' then do
    let scan ← scan.dropKey
    return scan.add .flowEntry (cursor.skip 1) true
  else if c == '-' && atGap rest then scan.blockEntry
  else if c == '?' && (scan.inFlow || atGap rest) then scan.keyMark
  else if c == ':' && (scan.inFlow || atGap rest) then scan.valueMark
  else if c == '*' then scan.property fun cursor =>
    (scanName cursor).map fun (name, next) => (.alias name, next)
  else if c == '&' then scan.property fun cursor =>
    (scanName cursor).map fun (name, next) => (.anchor name, next)
  else if c == '!' then scan.property (scanTag scan.inFlow)
  else if c == '|' && !scan.inFlow then scan.blockScalar true
  else if c == '>' && !scan.inFlow then scan.blockScalar false
  else if c == '\x27' then scan.quotedScalar true
  else if c == '"' then scan.quotedScalar false
  else if startsPlain scan.inFlow c rest then scan.plainScalar
  else none

/-- Whether fewer characters than a number are left of a text that is cut. -/
def lacks (scan : Scan) (count : Nat) : Bool :=
  scan.isCut && (scan.cursor.rest.drop (count - 1)).isEmpty

/-- Scans the next token. Four characters are looked at before it, and at least one after
it, which must not be cut off. -/
def next (scan : Scan) : Option Scan := do
  let scan := scan.skipGap (scan.cursor.rest.length + 1)
  if scan.lacks 4 then none
  let scan ← scan.dropStale
  let scan := scan.unroll (some scan.cursor.column)
  match scan.cursor.rest with
  | [] => scan.scanEnd
  | c :: rest => do
    let scan ← scan.scanAt c rest
    if scan.lacks 1 then none else some scan

/-- The tokens that are known not to come after a missing one. -/
def settled (scan : Scan) : List Token :=
  let numbers := scan.candidates.filterMap fun candidate? => candidate?.map (·.number)
  (scan.tokens.toList).take (numbers.foldl min scan.tokens.size)

/-- Scans to the end of the text, or to the first fault. Where a candidate that has to be
a key turns out to be none, only the tokens that were `known` before it are left. -/
def run : Nat → List Token → Scan → List Token
  | 0, known, _ => known
  | fuel + 1, known, scan =>
    match scan.dropStale with
    | none => known
    | some scan =>
      if scan.tokens.back? == some .streamEnd then scan.tokens.toList
      else match scan.next with
        | none => scan.settled
        | some next => run fuel scan.settled next

end Scan

/-- The number of bytes that are read at once; characters are not divided. -/
def windowSize : Nat := 16384

/-- The number of characters before the window that the last character of a text is in. -/
def windowStart (text : List Char) : Nat :=
  let (start, _, _) := text.foldl (fun (start, size, count) c =>
    let grown := size + c.utf8Size
    if windowSize < grown then (count, c.utf8Size, count + 1) else (start, grown, count + 1))
    (0, 0, 0)
  start

/-- The part of a text that can be read, and whether there is more. -/
def readablePart (text : List Char) : List Char × Bool :=
  match text.findIdx? (!isAllowed ·) with
  | none => (text, false)
  | some place => (text.take (windowStart (text.take (place + 1))), true)

/-- The tokens of a text up to the first fault. Only a text without a fault has a last
token `streamEnd`. -/
def tokensOf (text : String) : List Token :=
  let (readable, isCut) := readablePart text.toList
  Scan.run (readable.length + 2) [] (Scan.ofText readable isCut)

end ShellCompletion.Yaml
