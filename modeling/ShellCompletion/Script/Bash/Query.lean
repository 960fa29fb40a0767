import ShellCompletion.Guard.Basic
import ShellCompletion.Script.Bash.ReadingLoop

/-!
# Tests in bash functions

After the reading loop a bash function knows of every option the position and the value of
its last occurrence, and the positional words. A test on the command line becomes a query
on these variables.
-/

namespace ShellCompletion.Bash

/-- A query on the variables of the reading loop. -/
inductive Query where
  /-- A query that fails. -/
  | never
  /-- One of the options was given. -/
  | given (options : List ScopedOption)
  /-- The value of the option with the greatest position is one of the values. -/
  | latestIs (options : List ScopedOption) (values : List String)
  /-- The positional word at a place is one of the words. -/
  | wordIs (place : Nat) (words : List String)
  /-- How the number of positional words compares with a number. -/
  | count (comparison : Comparison) (count : Nat)

/-- The position and the value of the option with the greatest position, as the helper
function for options finds them: of two equal positions the first counts. -/
def LoopState.latest (state : LoopState) (options : List ScopedOption) : Nat × String :=
  options.foldl (fun best option =>
    if best.1 < state.position option.name then
      (state.position option.name,
        if option.arity.takesValue then state.value option.name else "")
    else best) (0, "")

namespace Query

/-- The query for a test. -/
def of (options : List ScopedOption) : Test → Query
  | .hasOption strings =>
    let owners := ownersOf options strings
    if owners.isEmpty then never else given owners
  | .optionIs strings values => latestIs (ownersOf options strings) values
  | .positionalContains number words => wordIs (number - 1) words
  | .positionalCount comparison number => count comparison number

/-- The query as a shell command; helper functions are given by name. -/
def render (optionIs contains : String) : Query → String
  | never => "false"
  | given options => "(( " ++ " || ".intercalate (options.map (·.position)) ++ " ))"
  | latestIs options values =>
    let pairs := options.map fun option =>
      let value := if option.arity.takesValue then "\"$" ++ option.value ++ "\"" else "''"
      "\"$" ++ option.position ++ "\" " ++ value
    optionIs ++ " " ++ " ".intercalate pairs ++ " -- " ++ Text.escapeAll values
  | wordIs place words =>
    contains ++ " \"$\x7bPOSITIONALS[" ++ toString place ++ "]\x7d\" " ++ Text.escapeAll words
  | count comparison number =>
    let operator := match comparison with
      | .eq => "=="
      | .ge => ">="
    "(( $\x7b#POSITIONALS[@]\x7d " ++ operator ++ " " ++ toString number ++ " ))"

/-- Whether the query succeeds. -/
def holds (state : LoopState) : Query → Bool
  | never => false
  | given options => options.any fun option => state.position option.name != 0
  | latestIs options values =>
    let latest := state.latest options
    latest.1 != 0 && values.contains latest.2
  | wordIs place words => words.contains (state.positionals[place]?.getD "")
  | count comparison number => comparison.holds state.positionals.length number

end Query
end ShellCompletion.Bash
