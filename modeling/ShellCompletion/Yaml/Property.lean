import ShellCompletion.Yaml.Scalar
import ShellCompletion.Yaml.Token

/-!
# Scanning anchors, tags and directives

The parts of a YAML text that say something about a node or a document without being
its content.
-/

namespace ShellCompletion.Yaml

/-- Whether a character may follow the name of an anchor. -/
def endsName (text : List Char) : Bool :=
  atGap text || "?:,]\x7d%@\x60".toList.any (text.head? == some ·)

/-- The name after an anchor or alias mark, and the place after it. -/
def scanName (cursor : Cursor) : Option (String × Cursor) :=
  let (name, next) := (cursor.skip 1).spanWhile isWordChar
  if name.isEmpty || !endsName next.rest then none else some (String.ofList name, next)

/-! ## Tags -/

/-- Whether a character may stand in a tag; the marks of lists only in a complete one. -/
def isTagChar (complete : Bool) (c : Char) : Bool :=
  isWordChar c || ";/?:@&=+$.%!~*\x27()".toList.contains c ||
    (complete && ",[]".toList.contains c)

/-- The bytes written as `%` and two hexadecimal digits at the start of a text, as many
as the first one asks for. -/
def escapedBytes? (text : List Char) : Option (List UInt8) := do
  let byte? (text : List Char) : Option UInt8 :=
    match text with
    | '%' :: a :: b :: _ => (Json.hexNumber? [a, b]).map Nat.toUInt8
    | _ => none
  let first ← byte? text
  let width ←
    if first &&& 0x80 == 0 then some 1
    else if first &&& 0xE0 == 0xC0 then some 2
    else if first &&& 0xF0 == 0xE0 then some 3
    else if first &&& 0xF8 == 0xF0 then some 4
    else none
  let more ← (List.range (width - 1)).mapM fun place => do
    let byte ← byte? (text.drop (3 * (place + 1)))
    if byte &&& 0xC0 == 0x80 then some byte else none
  return first :: more

/-- The characters of a tag that starts here, and the place after it. -/
def tagChars (complete : Bool) : Nat → Cursor → Option (List Char × Cursor)
  | 0, _ => none
  | fuel + 1, cursor =>
    match cursor.rest with
    | [] => some ([], cursor)
    | c :: _ =>
      if !isTagChar complete c then some ([], cursor)
      else if c == '%' then do
        let bytes ← escapedBytes? cursor.rest
        let text ← String.fromUTF8? ⟨bytes.toArray⟩
        let (more, next) ← tagChars complete fuel (cursor.skip (3 * bytes.length))
        return (text.toList ++ more, next)
      else (tagChars complete fuel (cursor.skip 1)).map fun (more, next) => (c :: more, next)

/-- The part of a tag that starts here, after some characters that belong to it. -/
def scanTagPart (complete : Bool) (before : List Char) (cursor : Cursor) :
    Option (List Char × Cursor) := do
  let (text, next) ← tagChars complete (cursor.rest.length + 1) cursor
  if before.isEmpty && text.isEmpty then none else some (before.drop 1 ++ text, next)

/-- The handle of a tag: an exclamation mark, or a word between two of them; a word
after one is handed out too. -/
def scanHandle (cursor : Cursor) : Option (List Char × Cursor) :=
  if cursor.rest.head? != some '!' then none
  else
    let (word, next) := (cursor.skip 1).spanWhile isWordChar
    if next.rest.head? == some '!' then some ('!' :: word ++ ['!'], next.skip 1)
    else some ('!' :: word, next)

/-- The handle and the suffix of the tag that starts here, and the place after it. -/
def scanTagText (cursor : Cursor) : Option ((List Char × List Char) × Cursor) :=
  if cursor.rest[1]? == some '<' then do
    let (suffix, next) ← scanTagPart true [] (cursor.skip 2)
    if next.rest.head? != some '>' then none
    some (([], suffix), next.skip 1)
  else do
    let (handle, next) ← scanHandle cursor
    if handle.length != 1 && handle.getLast? == some '!' then
      let (suffix, next) ← scanTagPart false [] next
      return ((handle, suffix), next)
    let (suffix, next) ← scanTagPart false handle next
    return (if suffix.isEmpty then ([], ['!']) else (['!'], suffix), next)

/-- The tag that starts here, and the place after it. A gap follows a tag, or a comma
between brackets. -/
def scanTag (inFlow : Bool) (cursor : Cursor) : Option (Token × Cursor) := do
  let ((handle, suffix), next) ← scanTagText cursor
  if !(inFlow && next.rest.head? == some ',') && !atGap next.rest then none
  return (.tag (String.ofList handle) (String.ofList suffix), next)

/-! ## Directives -/

/-- A number of at most nine digits, and the place after it. -/
def scanVersionPart (cursor : Cursor) : Option (Nat × Cursor) :=
  let (digits, next) := cursor.spanWhile Char.isDigit
  if digits.isEmpty || 9 < digits.length then none
  else some (digits.foldl (fun value c => value * 10 + Json.digitValue c) 0, next)

/-- The value of a version directive. -/
def scanVersion (cursor : Cursor) : Option (Token × Cursor) := do
  let (major, cursor) ← scanVersionPart (cursor.skipWhile isSpace)
  if cursor.rest.head? != some '.' then none
  let (minor, cursor) ← scanVersionPart (cursor.skip 1)
  return (.version major minor, cursor)

/-- The value of a tag directive. -/
def scanTagHandle (cursor : Cursor) : Option (Token × Cursor) := do
  let (handle, cursor) ← scanHandle (cursor.skipWhile isSpace)
  if handle.getLast? != some '!' then none
  if !cursor.rest.head?.any isSpace then none
  let (meaning, cursor) ← scanTagPart true [] (cursor.skipWhile isSpace)
  if !atGap cursor.rest then none
  return (.tagHandle (String.ofList handle) (String.ofList meaning), cursor)

/-- The directive that starts here, and the start of the line after it. -/
def scanDirective (cursor : Cursor) : Option (Token × Cursor) := do
  let (name, cursor) := (cursor.skip 1).spanWhile isWordChar
  if !atGap cursor.rest then none
  let (token, cursor) ←
    if name == "YAML".toList then scanVersion cursor
    else if name == "TAG".toList then scanTagHandle cursor
    else none
  return (token, ← cursor.nextLine?)

end ShellCompletion.Yaml
