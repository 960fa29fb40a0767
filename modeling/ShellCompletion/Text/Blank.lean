/-!
# White space

The characters with the White_Space property, and the operations on text that
depend on them: cutting a text into words and trimming its ends.
-/

namespace ShellCompletion.Text

/-- Whether the character is white space: the controls from tab to return, the
space, and the twenty other characters with the White_Space property. -/
def isBlank (c : Char) : Bool :=
  let code := c.toNat
  (0x9 ≤ code && code ≤ 0xD) || code == 0x20 || code == 0x85 || code == 0xA0 ||
    code == 0x1680 || (0x2000 ≤ code && code ≤ 0x200A) || code == 0x2028 || code == 0x2029 ||
    code == 0x202F || code == 0x205F || code == 0x3000

/-- The pieces of a text between the separators, an empty one wherever two
separators meet. -/
def split (isSeparator : Char → Bool) (text : String) : List String :=
  (text.toList.splitOnP isSeparator).map String.ofList

/-- The words of a text, which are the longest runs of characters that are no
white space. -/
def words (text : String) : List String :=
  (split isBlank text).filter (!·.isEmpty)

/-- The text less the white space at its end. -/
def trimEnd (text : String) : String :=
  String.ofList (text.toList.reverse.dropWhile isBlank).reverse

/-- The text less the white space at both ends. -/
def trim (text : String) : String :=
  trimEnd (String.ofList (text.toList.dropWhile isBlank))

end ShellCompletion.Text
