import ShellCompletion.Data.Shape
import ShellCompletion.Text.LetterCase

/-!
# Target shells

The shells that completion scripts are written for.
-/

namespace ShellCompletion

/-- A shell with programmable completion. -/
inductive Shell where
  /-- bash with the bash-completion package. -/
  | bash
  /-- zsh with its completion system. -/
  | zsh
  /-- fish. -/
  | fish
deriving Repr, DecidableEq, Inhabited

namespace Shell

/-- Every shell. -/
def all : List Shell := [bash, zsh, fish]

/-- The name of the shell. -/
def name : Shell → String
  | bash => "bash"
  | zsh => "zsh"
  | fish => "fish"

/-- The shell with a name, in any case. -/
def ofName? (word : String) : Option Shell :=
  all.find? (·.name == Text.lowerAscii word)

/-- The text of the error that no shell has a name. -/
def unknownMessage (word : String) : String :=
  s!"Unknown shell: {word}"

/-- The file type of the shell's scripts in an editor modeline. -/
def fileType : Shell → String
  | bash => "sh"
  | zsh => "zsh"
  | fish => "fish"

/-- The last line of a script, telling an editor its file type. -/
def modeline (shell : Shell) : String :=
  s!"# vim: ft={shell.fileType}"

/-- The conventional name of the file with a program's completions. -/
def completionFile (shell : Shell) (program : String) : String :=
  match shell with
  | bash => program
  | zsh => "_" ++ program
  | fish => program ++ ".fish"

/-- The shell with exactly this name. -/
def ofExactName (word : String) : Except ShapeError Shell :=
  match all.find? (·.name == word) with
  | some shell => .ok shell
  | none => .error (.unknownVariant word (all.map name))

/-- Reads the value of a document field: a name, or a map from a name to nothing. -/
def ofData : Data → Except ShapeError Shell
  | .text word => ofExactName word
  | .map [(.text word, value)] => do
    let shell ← ofExactName word
    match value with
    | .null => pure shell
    | other => throw (.wrongKind other "unit")
  | .map entries => .error (.wrongValue (.map entries) "map with a single key")
  | other => .error (.wrongKind other "string or map")

end Shell
end ShellCompletion
