/-!
# Lines of text

A text is cut into lines at its line feeds. A return before a line feed belongs to
the line end, and a line feed at the very end starts no further line.
-/

namespace ShellCompletion.Text

/-- The line less a return at its end. -/
def dropReturn (line : List Char) : List Char :=
  match line.reverse with
  | '\r' :: rest => rest.reverse
  | _ => line

/-- The lines made of the pieces between line feeds: every piece but the last ends
in a line feed, and the last one is a line only if it holds something. -/
def linesOfPieces : List (List Char) → List (List Char)
  | [] => []
  | [last] => if last.isEmpty then [] else [last]
  | piece :: rest => dropReturn piece :: linesOfPieces rest

/-- The lines of a text. -/
def lines (text : String) : List String :=
  (linesOfPieces (text.toList.splitOnP (· == '\n'))).map String.ofList

/-- Lines put under each other. -/
def unlines (lines : List String) : String :=
  "\n".intercalate lines

/-- The text with every line that holds something moved right by `width` spaces. -/
def indent (text : String) (width : Nat) : String :=
  unlines ((lines text).map fun line =>
    if line.isEmpty then "" else String.ofList (List.replicate width ' ') ++ line)

end ShellCompletion.Text
