import ShellCompletion.Error

/-!
# Files of a run

What a run of the compiler does to files, as operations that the file system of the
machine and a file tree in memory both have.
-/

namespace ShellCompletion.Cli

/-- The operations on files and on the output that a run needs. -/
structure Files (m : Type → Type) where
  /-- The text of a file. -/
  read : String → m (Except FileFault String)
  /-- Writes a text to a file and makes the directories it is in. -/
  write : String → String → m (Except FileFault Unit)
  /-- Writes a text to the output. -/
  print : String → m Unit

end ShellCompletion.Cli
