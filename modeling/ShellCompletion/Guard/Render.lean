import ShellCompletion.Guard.Basic

/-!
# Guards as shell commands

A guard is written as a list of commands joined by `&&` and `||`. Both bind alike
and to the left, so a combination inside another kind of combination is grouped.
-/

namespace ShellCompletion

/-- How a shell groups commands. -/
structure Grouping where
  /-- What opens a group. -/
  opening : String
  /-- What closes a group. -/
  closing : String

/-- The groups of bash and zsh. -/
def Grouping.posix : Grouping := ⟨"\x7b ", "; \x7d"⟩

/-- The groups of fish. -/
def Grouping.fish : Grouping := ⟨"begin; ", "; end"⟩

/-- Commands as a group. -/
def Grouping.wrap (grouping : Grouping) (commands : String) : String :=
  grouping.opening ++ commands ++ grouping.closing

namespace Guard

/-- Whether the guard is grouped where all of several guards are asked for. -/
def groupedInAll : Guard → Bool
  | any _ => true
  | _ => false

/-- Whether the guard is grouped where one of several guards is asked for. -/
def groupedInAny : Guard → Bool
  | all (_ :: _ :: _) => true
  | _ => false

/-- Whether the guard is grouped after a negation. -/
def groupedInNot : Guard → Bool
  | test _ => false
  | _ => true

mutual

/-- The guard as a list of commands, with a command for each test. -/
def render (grouping : Grouping) (command : Test → String) : Guard → String
  | test t => command t
  | not guard =>
    let inner := guard.render grouping command
    "! " ++ if guard.groupedInNot then grouping.wrap inner else inner
  | all guards =>
    if guards.isEmpty then "true" else " && ".intercalate (renderAll grouping command guards)
  | any guards =>
    if guards.isEmpty then "false" else " || ".intercalate (renderAny grouping command guards)

/-- The members of a conjunction. -/
def renderAll (grouping : Grouping) (command : Test → String) : List Guard → List String
  | [] => []
  | guard :: rest =>
    let inner := guard.render grouping command
    (if guard.groupedInAll then grouping.wrap inner else inner) ::
      renderAll grouping command rest

/-- The members of a disjunction. -/
def renderAny (grouping : Grouping) (command : Test → String) : List Guard → List String
  | [] => []
  | guard :: rest =>
    let inner := guard.render grouping command
    (if guard.groupedInAny then grouping.wrap inner else inner) ::
      renderAny grouping command rest

end

end Guard
end ShellCompletion
