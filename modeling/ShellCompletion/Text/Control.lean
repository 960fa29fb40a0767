/-!
# Texts without terminal controls

A text may tell a terminal to change colours or to move about. What such a text shows
is what is left without control characters and control sequences; tabs and the ends of
lines and pages stay, and they cut a sequence short. Controls with a string have no
other end than a control.
-/

namespace ShellCompletion.Text

/-- Where a reader of a text stands. -/
inductive ControlState where
  /-- In what is shown. -/
  | shown
  /-- After the character that starts a sequence. -/
  | escape
  /-- In a sequence that ends with a digit, a letter or a mark. -/
  | short
  /-- In a sequence with parameters, which ends with a letter or a mark. -/
  | parameters
  /-- In a command to the terminal, which a bell ends. -/
  | command
  /-- In another string, which only another sequence ends. -/
  | string
deriving Repr, DecidableEq

/-- Whether a character is a control that moves to another column, line or page. -/
def isMove (c : Char) : Bool :=
  c == '\t' || c == '\n' || c == '\x0c' || c == '\r'

/-- Whether a character lies between two others. -/
def isWithin (first last c : Char) : Bool :=
  first ≤ c && c ≤ last

/-- What a character after the start of a sequence makes of it. -/
def ControlState.afterEscape (c : Char) : ControlState :=
  if c == '[' then .parameters
  else if c == ']' then .command
  else if c == 'P' || c == 'X' || c == '^' || c == '_' then .string
  else if isWithin '0' '~' c then .shown
  else if isWithin ' ' '/' c then .short
  else .escape

/-- Where a reader stands after a character, and whether the character is shown. -/
def ControlState.step (state : ControlState) (c : Char) : ControlState × Bool :=
  if c == '\x1b' then (.escape, false)
  else if c == '\x18' || c == '\x1a' then (.shown, false)
  else match state with
    | .shown => (.shown, isMove c || (' ' ≤ c && c != '\x7f'))
    | .escape => if isMove c then (.shown, true) else (.afterEscape c, false)
    | .short =>
      if isMove c then (.shown, true)
      else (if isWithin '0' '~' c then .shown else .short, false)
    | .parameters =>
      if isMove c then (.shown, true)
      else (if isWithin '@' '~' c then .shown else .parameters, false)
    | .command => (if c == '\x07' then .shown else .command, false)
    | .string => (.string, false)

/-- What is shown of the rest of a text. -/
def ControlState.rest (state : ControlState) : List Char → List Char
  | [] => []
  | c :: text =>
    match state.step c with
    | (next, true) => c :: next.rest text
    | (next, false) => next.rest text

/-- What a terminal shows of a text. -/
def withoutControls (text : String) : String :=
  String.ofList (ControlState.shown.rest text.toList)

end ShellCompletion.Text
