import ShellCompletion.Guard.Basic

/-!
# What combined guards mean

Conjunctions are flattened and double negations dropped when guards are built. Neither
changes what the guards mean.
-/

namespace ShellCompletion.Guard

variable {holds : Test → Bool}

/-- All guards of a list hold if each of them does. -/
theorem evalAll_eq_all (guards : List Guard) :
    evalAll holds guards = guards.all (·.eval holds) := by
  induction guards with
  | nil => rfl
  | cons guard rest ih => rw [evalAll, ih, List.all_cons]

/-- One of the guards of a list holds if some of them does. -/
theorem evalAny_eq_any (guards : List Guard) :
    evalAny holds guards = guards.any (·.eval holds) := by
  induction guards with
  | nil => rfl
  | cons guard rest ih => rw [evalAny, ih, List.any_cons]

/-- The guard that always holds does. -/
@[simp] theorem eval_always : always.eval holds = true :=
  rfl

/-- A property that guards in a row have if each of them has it is one that a conjunction has if
all of its guards have it. -/
theorem conj_of_all (property : Guard → Bool)
    (hall : ∀ guards, property (.all guards) = guards.all property) (guards : List Guard) :
    property (conj guards) = guards.all property := by
  have hconjuncts (guard : Guard) : guard.conjuncts.all property = property guard := by
    cases guard with
    | all guards => rw [conjuncts, hall]
    | _ => simp [conjuncts]
  have hflat : (guards.flatMap conjuncts).all property = guards.all property := by
    rw [List.all_flatMap]
    simp only [hconjuncts]
  rw [conj]
  split
  · rename_i guard hsingle
    rw [← hflat, hsingle]
    simp
  · rw [hall, hflat]

/-- A conjunction holds if all of its guards do. -/
@[simp] theorem eval_conj (guards : List Guard) :
    (conj guards).eval holds = guards.all (·.eval holds) :=
  conj_of_all (·.eval holds) (fun guards => by rw [eval, evalAll_eq_all]) guards

/-- A negated guard holds if the guard does not. -/
@[simp] theorem eval_negate (guard : Guard) : guard.negate.eval holds = !guard.eval holds := by
  cases guard with
  | not guard => simp [negate, eval]
  | _ => rfl

end ShellCompletion.Guard
