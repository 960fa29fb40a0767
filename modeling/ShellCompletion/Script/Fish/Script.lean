import ShellCompletion.Script.Fish.Command
import ShellCompletion.Script.Fish.Helpers

/-!
# Scripts for fish

A script for fish consists of helper functions, lines that hold for the whole program,
and a section for each command that has something to complete.
-/

namespace ShellCompletion.Fish

/-- The sections of commands, while conditions declared before are known. -/
def sections (shared : List String) : List Scope → Emit (List Section)
  | [] => pure []
  | scope :: rest => do
    if scope.isEmpty then sections shared rest
    else
      let (part, shared) ← commandSection scope shared
      pure (part :: (← sections shared rest))

/-- The lines for the whole program: no files unless asked for, and the same completions
for its other names. -/
def registration (tree : CommandTree) : String :=
  let program := Text.escapeFish tree.programName
  Text.unlines (
    ("complete -c " ++ program ++ " -f") ::
    (tree.command 0).aliases.map fun name =>
      "complete -c " ++ Text.escapeFish name ++ " -w " ++ program)

/-- The script of a program. -/
def script (tree : CommandTree) (config : Config) : Logged String := do
  let (sections, state) ←
    Emit.run (helpers tree.programName) (sections [] (tree.walk.map (tree.scope config)))
  let program := Text.escapeFish tree.programName
  pure (assemble ([generationNotice] ++ includedSections config ++ state.helpers.code ++
    [registration tree] ++ sections.map (·.render program) ++ modelineSection config .fish))

end ShellCompletion.Fish
