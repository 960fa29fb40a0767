/-!
# Places in a YAML text

A cursor is a place in a text: what is left of the text and where it starts. Line
breaks are line feeds, carriage returns, both in this order, and the three line
breaks of Unicode; a line or paragraph separator stays what it is inside scalars and
every other line break is a line feed there.
-/

namespace ShellCompletion.Yaml

/-- Whether a character may stand in a YAML text. -/
def isAllowed (c : Char) : Bool :=
  let code := c.toNat
  code == 0x09 || code == 0x0A || code == 0x0D || (0x20 ≤ code && code ≤ 0x7E) ||
    code == 0x85 || (0xA0 ≤ code && code ≤ 0xFFFD) || 0x10000 ≤ code

/-- Whether a character is a blank or a tab. -/
def isSpace (c : Char) : Bool :=
  c == ' ' || c == '\t'

/-- Whether a character separates lines or paragraphs and stays itself in scalars. -/
def isSeparator (c : Char) : Bool :=
  c == '\u2028' || c == '\u2029'

/-- Whether a character ends a line. -/
def isBreak (c : Char) : Bool :=
  c == '\n' || c == '\r' || c == '\u0085' || isSeparator c

/-- Whether a character may stand in the names of anchors and in tag handles. -/
def isWordChar (c : Char) : Bool :=
  c.isAlphanum || c == '_' || c == '-'

/-- Whether a text starts with a blank, a tab or a line break, or is empty. -/
def atGap : List Char → Bool
  | [] => true
  | c :: _ => isSpace c || isBreak c

/-- Whether a text starts with a line break or is empty. -/
def atLineEnd : List Char → Bool
  | [] => true
  | c :: _ => isBreak c

/-- A place in a text. -/
structure Cursor where
  /-- The text from here on. -/
  rest : List Char
  /-- The number of bytes before. -/
  index : Nat
  /-- The number of lines before. -/
  line : Nat
  /-- The number of characters before on the same line. -/
  column : Nat

namespace Cursor

/-- The number of bytes that a text takes. -/
def byteSize (text : List Char) : Nat :=
  text.foldl (fun size c => size + c.utf8Size) 0

/-- The place after some characters that are no line breaks. -/
def skip (cursor : Cursor) (count : Nat) : Cursor :=
  let (before, rest) := cursor.rest.splitAt count
  ⟨rest, cursor.index + byteSize before, cursor.line, cursor.column + count⟩

/-- The longest run of characters with a property that line breaks do not have, and
the place after it. -/
def spanWhile (p : Char → Bool) (cursor : Cursor) : List Char × Cursor :=
  let run := cursor.rest.takeWhile p
  (run, cursor.skip run.length)

/-- The place after a run of characters with a property that line breaks do not have. -/
def skipWhile (p : Char → Bool) (cursor : Cursor) : Cursor :=
  (cursor.spanWhile p).2

/-- The line break that starts here, as scalars hold it, and the place after it. -/
def lineBreak? (cursor : Cursor) : Option (Char × Cursor) :=
  match cursor.rest with
  | '\r' :: '\n' :: rest => some ('\n', ⟨rest, cursor.index + 2, cursor.line + 1, 0⟩)
  | c :: rest =>
    if isBreak c then
      some (if isSeparator c then c else '\n',
        ⟨rest, cursor.index + c.utf8Size, cursor.line + 1, 0⟩)
    else none
  | [] => none

/-- The place after blanks and a comment, if there is one. -/
def skipComment (cursor : Cursor) : Cursor :=
  let cursor := cursor.skipWhile isSpace
  if cursor.rest.head? == some '#' then cursor.skipWhile (!isBreak ·) else cursor

/-- The place at the start of the next line, if only blanks and a comment are left on
this one; the end of the text if there is no next line. -/
def nextLine? (cursor : Cursor) : Option Cursor :=
  let cursor := cursor.skipComment
  match cursor.lineBreak? with
  | some (_, next) => some next
  | none => if cursor.rest.isEmpty then some cursor else none

/-- Whether a line starts here with three times a character and a gap. -/
def atMark (mark : Char) (cursor : Cursor) : Bool :=
  cursor.column == 0 && cursor.rest.take 3 == [mark, mark, mark] && atGap (cursor.rest.drop 3)

/-- Whether the start or the end of a document is marked here. -/
def atDocumentMark (cursor : Cursor) : Bool :=
  cursor.atMark '-' || cursor.atMark '.'

end Cursor
end ShellCompletion.Yaml
