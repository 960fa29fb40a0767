import ShellCompletion.CommandLine.Parsed

/-!
# Guards

A guard says for which command lines something is offered. It combines tests on the
command line and knows nothing of shells; its meaning is given on parsed command
lines.
-/

namespace ShellCompletion

/-- How a number is compared. -/
inductive Comparison where
  /-- The numbers are equal. -/
  | eq
  /-- The first number is at least the second. -/
  | ge
deriving Repr, DecidableEq

/-- Whether a comparison holds. -/
def Comparison.holds : Comparison → Nat → Nat → Bool
  | eq, left, right => left == right
  | ge, left, right => right ≤ left

/-- A test on the command line. -/
inductive Test where
  /-- One of the options was given. -/
  | hasOption (options : List String)
  /-- The last one given of the options has one of the values. -/
  | optionIs (options values : List String)
  /-- The positional word with the number, counted from one, is one of the words. -/
  | positionalContains (number : Nat) (words : List String)
  /-- How the number of positional words compares with a number. -/
  | positionalCount (comparison : Comparison) (count : Nat)
deriving Repr, DecidableEq

/-- Whether a test holds for a command line. -/
def Test.holds (line : ParsedLine) : Test → Bool
  | hasOption options => line.hasOption options
  | optionIs options values => line.optionIs options values
  | positionalContains number words =>
    match line.positional? number with
    | some word => words.contains word
    | none => false
  | positionalCount comparison count => comparison.holds line.positionals.length count

/-- A combination of tests. -/
inductive Guard where
  /-- A test holds. -/
  | test (test : Test)
  /-- The guard does not hold. -/
  | not (guard : Guard)
  /-- All guards hold. -/
  | all (guards : List Guard)
  /-- One of the guards holds. -/
  | any (guards : List Guard)
deriving Repr, Inhabited

namespace Guard

/-- The guard that always holds. -/
def always : Guard := all []

/-- Whether the guard is the one that always holds. -/
def isAlways : Guard → Bool
  | all [] => true
  | _ => false

/-- The guards that a conjunction stands for, other guards themselves. -/
def conjuncts : Guard → List Guard
  | all guards => guards
  | guard => [guard]

/-- The guard that holds if all of several do; conjunctions among them are opened. -/
def conj (guards : List Guard) : Guard :=
  match guards.flatMap conjuncts with
  | [guard] => guard
  | guards => all guards

/-- The guard that holds if another does not. -/
def negate : Guard → Guard
  | not guard => guard
  | guard => not guard

mutual

/-- Whether the guard holds if `holds` says which tests do. -/
def eval (holds : Test → Bool) : Guard → Bool
  | test t => holds t
  | not guard => !guard.eval holds
  | all guards => evalAll holds guards
  | any guards => evalAny holds guards

/-- Whether all of several guards hold. -/
def evalAll (holds : Test → Bool) : List Guard → Bool
  | [] => true
  | guard :: rest => guard.eval holds && evalAll holds rest

/-- Whether one of several guards holds. -/
def evalAny (holds : Test → Bool) : List Guard → Bool
  | [] => false
  | guard :: rest => guard.eval holds || evalAny holds rest

end

/-- Whether the guard holds for a command line. -/
def holds (line : ParsedLine) (guard : Guard) : Bool :=
  guard.eval (·.holds line)

mutual

/-- The tests in a guard, from left to right. -/
def tests : Guard → List Test
  | test t => [t]
  | not guard => guard.tests
  | all guards => testsOf guards
  | any guards => testsOf guards

/-- The tests in several guards. -/
def testsOf : List Guard → List Test
  | [] => []
  | guard :: rest => guard.tests ++ testsOf rest

end

end Guard
end ShellCompletion
