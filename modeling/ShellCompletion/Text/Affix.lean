/-!
# Beginnings and ends of text

Whether a text begins or ends with another, and what is left without it. Lengths
count characters.
-/

namespace ShellCompletion.Text

/-- Whether the text begins with `part`. -/
def beginsWith (text part : String) : Bool :=
  part.toList.isPrefixOf text.toList

/-- What is left of the text before `part`, if it ends with it. -/
def without? (text part : String) : Option String :=
  (part.toList.isSuffixOf? text.toList).map String.ofList

/-- The text less every dash it begins with. -/
def dropDashes (text : String) : String :=
  String.ofList (text.toList.dropWhile (· == '-'))

/-- The text without its first `count` characters. -/
def dropChars (count : Nat) (text : String) : String :=
  String.ofList (text.toList.drop count)

/-- The parts of the text before and after its first `mark`, if it has one. -/
def cutAt? (mark : Char) (text : String) : Option (String × String) :=
  match text.toList.span (· != mark) with
  | (_, []) => none
  | (before, _ :: after) => some (String.ofList before, String.ofList after)

end ShellCompletion.Text
