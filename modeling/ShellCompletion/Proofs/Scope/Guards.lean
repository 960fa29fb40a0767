import ShellCompletion.Proofs.Attempts
import ShellCompletion.Proofs.Guard.Eval
import ShellCompletion.Proofs.Scope.Declarations
import ShellCompletion.Scope.Guards

/-!
# Compiled conditions

A condition is compiled if each of its strings refers to a visible option. The guard of an
option asks for nothing else: it holds if no conflicting string was given and the compiled
condition holds.
-/

namespace ShellCompletion.Scope

variable {scope : Scope} {declared meant : Declaration} {condition : Condition} {string : String}

/-- A reference means the visible option that has the string. -/
theorem Distinct.resolveReference_eq_ok (hdistinct : Distinct scope.levels) :
    scope.resolveReference string = .ok meant ↔
      meant ∈ scope.visibleOptions ∧ string ∈ meant.option.strings := by
  rw [← hdistinct.findOption?_eq_some, resolveReference]
  split
  · rename_i found hfind
    rw [hfind, Except.ok.injEq, Option.some.injEq]
  · rename_i hnone
    simp [hnone]

/-- A condition is compiled if each of its strings refers to an option. -/
theorem exists_compile_iff : (∃ guard, scope.compile condition = .ok guard) ↔
    ∀ string ∈ condition.options, ∃ meant, scope.resolveReference string = .ok meant := by
  rw [← exists_mapM_eq_ok]
  simp only [compile, referencedStrings, bind_eq_ok]
  constructor
  · rintro ⟨-, -, ⟨options, hoptions, -⟩, -⟩
    exact ⟨options, hoptions⟩
  · rintro ⟨options, hoptions⟩
    cases condition with
    | hasOption _ => exact ⟨_, _, ⟨options, hoptions, rfl⟩, rfl⟩
    | optionIs _ _ => exact ⟨_, _, ⟨options, hoptions, rfl⟩, rfl⟩

/-- A condition that is not compiled has a string that no visible option has. -/
theorem exists_of_compile_eq_error {error : Error}
    (hcompile : scope.compile condition = .error error) : ∃ string ∈ condition.options,
      scope.findOption? string = none ∧
        error = .unresolvedOption scope.commandPath string := by
  rcases bind_eq_error.mp hcompile with hstrings | ⟨strings, _, hguard⟩
  · rcases bind_eq_error.mp hstrings with hmeant | ⟨_, _, hpure⟩
    · obtain ⟨string, hstring, hresolve⟩ := exists_of_mapM_eq_error hmeant
      rw [resolveReference] at hresolve
      split at hresolve
      · cases hresolve
      · rename_i hnone
        cases hresolve
        exact ⟨string, hstring, hnone, rfl⟩
    · cases hpure
  · cases condition <;> cases hguard

/-- The strings of a compiled condition are those of visible options. -/
theorem mem_referencedStrings {strings : List String}
    (hstrings : scope.referencedStrings condition = .ok strings) :
    string ∈ strings ↔ ∃ reference ∈ condition.options, ∃ meant,
      scope.resolveReference reference = .ok meant ∧ string ∈ meant.option.strings := by
  obtain ⟨meant, hmeant, hall⟩ := bind_eq_ok.mp hstrings
  cases hall
  simp only [List.mem_eraseDups, List.mem_flatMap, mem_mapM hmeant]
  constructor
  · rintro ⟨declared, ⟨reference, hreference, hresolved⟩, hstring⟩
    exact ⟨reference, hreference, declared, hresolved, hstring⟩
  · rintro ⟨reference, hreference, declared, hresolved, hstring⟩
    exact ⟨declared, ⟨reference, hreference, hresolved⟩, hstring⟩

/-- A condition becomes a test for the strings that it refers to. -/
theorem compile_eq_ok {guard : Guard} : scope.compile condition = .ok guard ↔
    ∃ strings, scope.referencedStrings condition = .ok strings ∧
      guard = .test (match condition with
        | .hasOption _ => .hasOption strings
        | .optionIs _ values => .optionIs strings values) := by
  rw [compile, bind_eq_ok]
  refine exists_congr fun strings => and_congr_right fun _ => ?_
  cases condition <;> exact (Except.ok.injEq _ _).to_iff.trans eq_comm

/-- A condition whose strings refer to the same options in two scopes becomes the same
guard in both. -/
theorem compile_congr {other : Scope} (hsame : ∀ string ∈ condition.options,
    scope.resolveReference string = other.resolveReference string) :
    scope.compile condition = other.compile condition := by
  rw [compile, compile, referencedStrings, referencedStrings, mapM_congr hsame]

/-- The guard of an option holds if no conflicting string was given and the guard of its
condition holds. -/
theorem exists_optionGuard {shown : Guard}
    (hshown : scope.whenGuard declared.option.when = .ok shown) :
    ∃ guard, scope.optionGuard declared = .ok guard ∧ ∀ line, guard.holds line =
      (!line.hasOption (scope.conflictingStrings declared) && shown.holds line) := by
  refine ⟨_, by rw [optionGuard, hshown]; rfl, fun line => ?_⟩
  rw [Guard.holds, Guard.eval_conj]
  split
  · rename_i hnone
    simp [List.isEmpty_iff.mp hnone, ParsedLine.hasOption, Guard.holds]
  · simp [Guard.eval, Guard.holds, Test.holds]

/-- The guard of an option asks for its condition and, if there are conflicting strings, for
none of them. -/
theorem eval_optionGuard {guard shown : Guard} {holds : Test → Bool}
    (hnever : holds (.hasOption []) = false)
    (hshown : scope.whenGuard declared.option.when = .ok shown)
    (hguard : scope.optionGuard declared = .ok guard) : guard.eval holds =
      (!holds (.hasOption (scope.conflictingStrings declared)) && shown.eval holds) := by
  rw [optionGuard, hshown] at hguard
  cases hguard
  rw [Guard.eval_conj]
  split
  · rename_i hnone
    simp [List.isEmpty_iff.mp hnone, hnever]
  · simp [Guard.eval]

/-! ## Which conditions decide -/

/-- The guard of an option is built if its condition is compiled. -/
theorem discard_optionGuard (scope : Scope) (declared : Declaration) :
    discard (scope.optionGuard declared) = discard (scope.whenGuard declared.option.when) := by
  rw [optionGuard]
  cases scope.whenGuard declared.option.when <;> rfl

/-- The guard of a positional argument is built if its condition is compiled. -/
theorem discard_positionalGuard (scope : Scope) (number : Nat) (positional : Positional) :
    discard (scope.positionalGuard number positional) =
      discard (scope.whenGuard positional.when) := by
  rw [positionalGuard]
  cases scope.whenGuard positional.when <;> rfl

/-- Compiles the conditions of the options that the command shows. -/
def checkVisible (scope : Scope) : Except Error Unit :=
  scope.visibleOptions.forM fun declared => discard (scope.whenGuard declared.option.when)

/-- The conditions of visible options are compiled if all their strings refer to options. -/
theorem checkVisible_eq_ok : scope.checkVisible = .ok () ↔
    ∀ declared ∈ scope.visibleOptions, ∀ condition ∈ declared.option.when,
      ∀ string ∈ condition.options, ∃ meant, scope.resolveReference string = .ok meant := by
  rw [checkVisible, forM_eq_ok]
  refine forall₂_congr fun declared _ => ?_
  rw [discard_eq_ok]
  cases declared.option.when with
  | none => simp [whenGuard]
  | some condition => simpa [whenGuard] using exists_compile_iff

/-- Compiling the conditions of visible options fails for a string that no visible option has. -/
theorem exists_of_checkVisible_eq_error {error : Error}
    (hchecked : scope.checkVisible = .error error) : ∃ string,
      scope.findOption? string = none ∧
        error = .unresolvedOption scope.commandPath string := by
  obtain ⟨declared, _, hguard⟩ := exists_of_forM_eq_error hchecked
  rw [discard_eq_error] at hguard
  cases hwhen : declared.option.when with
  | none =>
    rw [hwhen] at hguard
    cases hguard
  | some condition =>
    rw [hwhen] at hguard
    obtain ⟨string, _, hmissing⟩ := exists_of_compile_eq_error hguard
    exact ⟨string, hmissing⟩

/-- Compiling the conditions of a command fails for a string that no visible option has. -/
theorem exists_of_checkConditions_eq_error {error : Error}
    (hchecked : scope.checkConditions = .error error) : ∃ string,
      scope.findOption? string = none ∧
        error = .unresolvedOption scope.commandPath string := by
  obtain ⟨condition, _, hcompile⟩ := exists_of_forM_eq_error hchecked
  obtain ⟨string, _, hmissing⟩ := exists_of_compile_eq_error (discard_eq_error.mp hcompile)
  exact ⟨string, hmissing⟩

/-- A command that has nothing to complete shows no options with conditions. -/
theorem checkVisible_of_isEmpty (hempty : scope.isEmpty = true) :
    scope.checkVisible = .ok () := by
  simp only [isEmpty, Bool.and_eq_true, List.isEmpty_iff] at hempty
  rw [checkVisible, hempty.2]
  rfl

/-- In a command whose conditions are compiled, that of every own option refers to visible
options. -/
theorem exists_resolveReference_of_mem_ownOptions (hchecked : scope.checkConditions = .ok ())
    (hown : declared ∈ scope.ownOptions) (hwhen : condition ∈ declared.option.when)
    (hstring : string ∈ condition.options) :
    ∃ meant, scope.resolveReference string = .ok meant := by
  have hoption := List.mem_of_getElem? (Command.mem_declarations.mp hown).2
  have hcompiled := forM_eq_ok.mp hchecked condition
    (List.mem_append_left _ (List.mem_filterMap.mpr ⟨_, hoption, hwhen⟩))
  exact exists_compile_iff.mp (discard_eq_ok.mp hcompiled) string hstring

/-- In a command whose conditions are compiled, that of every positional argument is. -/
theorem discard_whenGuard_of_mem_positionals (hchecked : scope.checkConditions = .ok ())
    {numbered : Nat × Positional} (hnumbered : numbered ∈ scope.numberedPositionals) :
    discard (scope.whenGuard numbered.2.when) = .ok () := by
  obtain ⟨⟨positional, place⟩, hplace, rfl⟩ := List.mem_map.mp hnumbered
  cases hwhen : positional.when with
  | none => rfl
  | some condition =>
    have hpositional := List.fst_mem_of_mem_zipIdx hplace
    exact forM_eq_ok.mp hchecked condition
      (List.mem_append_right _ (List.mem_filterMap.mpr ⟨_, hpositional, hwhen⟩))

end ShellCompletion.Scope
