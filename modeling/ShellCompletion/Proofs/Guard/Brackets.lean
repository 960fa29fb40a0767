import ShellCompletion.Proofs.Guard.TestCommands
import ShellCompletion.Proofs.Scope.Guards

/-!
# What rendered guards mean

A member of a conjunction or disjunction is grouped if it would otherwise be read as a
part of what is before it. Whether it is grouped depends on its outermost part, so a
conjunction of several guards that is the only member of another one is not grouped after
`||`. All guards without such a place mean what their command list means, and those that
scripts are made of have no such place.
-/

namespace ShellCompletion.Guard

open CommandList

mutual

/-- Whether no conjunction of several guards is written behind `||` without a group, and no
disjunction behind `&&`, if the guard itself is written behind the connective. -/
def bracketed (after : Option Connective) : Guard → Bool
  | test _ => true
  | not guard => guard.bracketed none
  | all guards => (after != some .or || guards.length ≤ 1) &&
      bracketedMembers .and groupedInAll after guards
  | any guards => (after != some .and || guards.length ≤ 1) &&
      bracketedMembers .or groupedInAny after guards

/-- The same for guards that are joined by a connective, where some are grouped. -/
def bracketedMembers (connective : Connective) (grouped : Guard → Bool)
    (after : Option Connective) : List Guard → Bool
  | [] => true
  | guard :: rest => guard.bracketed (if grouped guard then none else after) &&
      bracketedMembers connective grouped (some connective) rest

end

/-- All guards but the first are written behind the connective that joins them. -/
theorem bracketedMembers_some (connective : Connective) (grouped : Guard → Bool)
    (guards : List Guard) : bracketedMembers connective grouped (some connective) guards =
      guards.all fun guard =>
        guard.bracketed (if grouped guard then none else some connective) := by
  induction guards with
  | nil => rfl
  | cons guard rest ih => rw [bracketedMembers, ih, List.all_cons]

/-- The command of a test is a single command, and it succeeds if the test holds. -/
def Asks (dialect : Dialect) (command : Test → String) (succeeds : List String → Bool)
    (holds : Test → Bool) (test : Test) : Prop :=
  ∃ words, IsCommand dialect (command test) words ∧ run succeeds words = holds test

section Reading

variable {dialect : Dialect} {command : Test → String} {succeeds : List String → Bool}
  {holds : Test → Bool} {joined : Option (Bool × Connective)}

/-- The constants are commands. -/
theorem reads_true (joined : Option (Bool × Connective)) :
    Reads dialect succeeds "true" { joined } (Pending.result { joined } true) := by
  have hcommand : IsCommand dialect "true" ["true"] := by
    constructor <;> cases dialect <;> decide +kernel
  exact hcommand.reads

/-- The constants are commands. -/
theorem reads_false (joined : Option (Bool × Connective)) :
    Reads dialect succeeds "false" { joined } (Pending.result { joined } false) := by
  have hcommand : IsCommand dialect "false" ["false"] := by
    constructor <;> cases dialect <;> decide +kernel
  exact hcommand.reads

/-- A command asks its test. -/
theorem Asks.reads {test : Test} (htest : Asks dialect command succeeds holds test)
    (pending : Pending) :
    Reads dialect succeeds (command test) pending (pending.result (holds test)) := by
  obtain ⟨words, hcommand, hrun⟩ := htest
  rw [← hrun]
  exact hcommand.reads

/-- Texts joined by a connective are read one after the other. -/
theorem reads_chain {connective : Connective} {rest : List (String × Bool)}
    (hrest : ∀ member ∈ rest, ∀ before, Reads dialect succeeds member.1
      { joined := some (before, connective) } (connective.apply before member.2))
    {first : String} {value : Bool} (hfirst : Reads dialect succeeds first { joined } value) :
    Reads dialect succeeds
      ((" " ++ connective.text ++ " ").intercalate (first :: rest.map (·.1))) { joined }
      ((rest.map (·.2)).foldl connective.apply value) := by
  induction rest generalizing joined first value with
  | nil => simpa using hfirst
  | cons next rest ih =>
    have hnext := hrest next List.mem_cons_self value
    have htail := ih (fun member hmember => hrest member (List.mem_cons_of_mem _ hmember)) hnext
    have htext : (" " ++ connective.text ++ " ").intercalate
          (first :: (next :: rest).map (·.1)) =
        first ++ " " ++ connective.text ++ " " ++
          (" " ++ connective.text ++ " ").intercalate (next.1 :: rest.map (·.1)) := by
      apply String.toList_injective
      simp [String.intercalate_cons_cons]
    rw [htext]
    exact hfirst.join htail

/-- What is read for a guard, behind whatever the guard is bracketed for. -/
def ReadsAs (dialect : Dialect) (command : Test → String) (succeeds : List String → Bool)
    (holds : Test → Bool) (guard : Guard) : Prop :=
  ∀ joined : Option (Bool × Connective), guard.bracketed (joined.map (·.2)) = true →
    Reads dialect succeeds (guard.render dialect.grouping command) { joined }
      (Pending.result { joined } (guard.eval holds))

/-- A member of a conjunction or disjunction is read alike with and without a group. -/
theorem ReadsAs.member {guard : Guard} (hreads : ReadsAs dialect command succeeds holds guard)
    {grouped : Bool}
    (hguard : guard.bracketed (if grouped then none else joined.map (·.2)) = true) :
    Reads dialect succeeds
      (if grouped then dialect.grouping.wrap (guard.render dialect.grouping command)
        else guard.render dialect.grouping command) { joined }
      (Pending.result { joined } (guard.eval holds)) := by
  cases grouped with
  | true =>
    have hinner := hreads none hguard
    rw [Pending.result_first] at hinner
    exact hinner.wrap
  | false => exact hreads joined hguard

/-- A negated guard is a single command or a group behind an exclamation mark. -/
theorem ReadsAs.not {guard : Guard} (hreads : ReadsAs dialect command succeeds holds guard)
    (hasks : ∀ test ∈ guard.tests, Asks dialect command succeeds holds test) :
    ReadsAs dialect command succeeds holds guard.not := by
  intro joined hguard
  have hresult (value : Bool) : Pending.result { joined, negated := true } value =
      Pending.result { joined } (!value) := by
    simp [Pending.result]
  apply Reads.negate
  rw [eval, ← hresult]
  cases guard with
  | test t => exact (hasks t List.mem_cons_self).reads _
  | _ =>
    have hinner := hreads none hguard
    rw [Pending.result_first] at hinner
    exact hinner.wrap

/-- Guards joined by a connective are read one after the other. -/
theorem reads_members {connective : Connective} {grouped : Guard → Bool} {first : Guard}
    {rest : List Guard}
    (hreads : ∀ guard ∈ first :: rest, ReadsAs dialect command succeeds holds guard)
    (hfirst : first.bracketed (if grouped first then none else joined.map (·.2)) = true)
    (hrest : ∀ guard ∈ rest,
      guard.bracketed (if grouped guard then none else some connective) = true) :
    Reads dialect succeeds
      ((" " ++ connective.text ++ " ").intercalate ((first :: rest).map fun guard =>
        if grouped guard then dialect.grouping.wrap (guard.render dialect.grouping command)
        else guard.render dialect.grouping command)) { joined }
      ((rest.map (·.eval holds)).foldl connective.apply
        (Pending.result { joined } (first.eval holds))) := by
  let members := rest.map fun guard =>
    (if grouped guard then dialect.grouping.wrap (guard.render dialect.grouping command)
      else guard.render dialect.grouping command, guard.eval holds)
  have hmembers : ∀ member ∈ members, ∀ before, Reads dialect succeeds member.1
      { joined := some (before, connective) } (connective.apply before member.2) := by
    intro member hmember before
    obtain ⟨guard, hguard, rfl⟩ := List.mem_map.mp hmember
    rw [← Pending.result_joined]
    exact (hreads guard (List.mem_cons_of_mem _ hguard)).member (hrest guard hguard)
  have hchain := reads_chain hmembers ((hreads first List.mem_cons_self).member hfirst)
  simpa only [members, List.map_map, Function.comp_def, List.map_cons] using hchain

/-- Values joined by a connective are joined as one value to what is before them, if that is
joined by the same connective. -/
theorem result_foldl {connective : Connective} {values : List Bool}
    (hjoined : ∀ pair ∈ joined, pair.2 = connective ∨ values = []) (value : Bool) :
    values.foldl connective.apply (Pending.result { joined } value) =
      Pending.result { joined } (values.foldl connective.apply value) := by
  induction values generalizing value with
  | nil => rfl
  | cons next rest ih =>
    have hstep : connective.apply (Pending.result { joined } value) next =
        Pending.result { joined } (connective.apply value next) := by
      cases joined with
      | none => simp [Pending.result]
      | some pair =>
        obtain ⟨before, other⟩ := pair
        have hother : other = connective := by simpa using hjoined (before, other) rfl
        subst hother
        cases other <;>
          simp [Pending.result, Connective.apply, Bool.and_assoc, Bool.or_assoc]
    have hrest : ∀ pair ∈ joined, pair.2 = connective ∨ rest = [] := by
      intro pair hpair
      exact .inl (by simpa using hjoined pair hpair)
    rw [List.foldl_cons, List.foldl_cons, hstep, ih hrest]

/-- A disjunction or conjunction is read as its value if its members are. -/
theorem reads_joined {connective : Connective} {grouped : Guard → Bool} {first : Guard}
    {rest : List Guard}
    (hreads : ∀ guard ∈ first :: rest, ReadsAs dialect command succeeds holds guard)
    (hplace : ∀ pair ∈ joined, pair.2 = connective ∨ rest = [])
    (hguards : bracketedMembers connective grouped (joined.map (·.2)) (first :: rest) = true) :
    Reads dialect succeeds
      ((" " ++ connective.text ++ " ").intercalate ((first :: rest).map fun guard =>
        if grouped guard then dialect.grouping.wrap (guard.render dialect.grouping command)
        else guard.render dialect.grouping command)) { joined }
      (Pending.result { joined }
        ((rest.map (·.eval holds)).foldl connective.apply (first.eval holds))) := by
  rw [bracketedMembers, bracketedMembers_some, Bool.and_eq_true, List.all_eq_true] at hguards
  obtain ⟨hfirst, hrest⟩ := hguards
  have hvalues : ∀ pair ∈ joined, pair.2 = connective ∨ rest.map (·.eval holds) = [] := by
    simpa only [List.map_eq_nil_iff] using hplace
  rw [← result_foldl hvalues]
  exact reads_members hreads hfirst hrest

/-- The members of a conjunction are those of the guards. -/
theorem renderAll_eq_map (grouping : Grouping) (command : Test → String) (guards : List Guard) :
    renderAll grouping command guards = guards.map fun guard =>
      if guard.groupedInAll then grouping.wrap (guard.render grouping command)
      else guard.render grouping command := by
  induction guards with
  | nil => rfl
  | cons guard rest ih => rw [renderAll, ih, List.map_cons]

/-- The members of a disjunction are those of the guards. -/
theorem renderAny_eq_map (grouping : Grouping) (command : Test → String) (guards : List Guard) :
    renderAny grouping command guards = guards.map fun guard =>
      if guard.groupedInAny then grouping.wrap (guard.render grouping command)
      else guard.render grouping command := by
  induction guards with
  | nil => rfl
  | cons guard rest ih => rw [renderAny, ih, List.map_cons]

/-- The value of a conjunction is that of its members joined by `&&`. -/
theorem evalAll_eq_foldl (first : Guard) (rest : List Guard) : evalAll holds (first :: rest) =
    (rest.map (·.eval holds)).foldl Connective.and.apply (first.eval holds) := by
  have hfold (values : List Bool) (value : Bool) :
      values.foldl Connective.and.apply value = (value && values.all id) := by
    induction values generalizing value with
    | nil => simp
    | cons next rest ih => simp [ih, Connective.apply, Bool.and_assoc]
  rw [hfold, evalAll_eq_all, List.all_cons, List.all_map]
  rfl

/-- The value of a disjunction is that of its members joined by `||`. -/
theorem evalAny_eq_foldl (first : Guard) (rest : List Guard) : evalAny holds (first :: rest) =
    (rest.map (·.eval holds)).foldl Connective.or.apply (first.eval holds) := by
  have hfold (values : List Bool) (value : Bool) :
      values.foldl Connective.or.apply value = (value || values.any id) := by
    induction values generalizing value with
    | nil => simp
    | cons next rest ih => simp [ih, Connective.apply, Bool.or_assoc]
  rw [hfold, evalAny_eq_any, List.any_cons, List.any_map]
  rfl

/-- Members that may stand behind what is before them are joined by the same connective, or there
is only one. -/
theorem joined_of_place {connective other : Connective} {first : Guard} {rest : List Guard}
    (hother : ∀ before, before = connective ∨ before = other)
    (hplace : (joined.map (·.2) != some other || (first :: rest).length ≤ 1) = true) :
    ∀ pair ∈ joined, pair.2 = connective ∨ rest = [] := by
  intro pair hpair
  rcases hother pair.2 with hsame | hdiffer
  · exact .inl hsame
  · rw [Option.mem_def.mp hpair, Option.map_some, hdiffer] at hplace
    exact .inr (by simpa using hplace)

/-- A conjunction is read as its value if its members are. -/
theorem ReadsAs.all {guards : List Guard}
    (hreads : ∀ guard ∈ guards, ReadsAs dialect command succeeds holds guard) :
    ReadsAs dialect command succeeds holds (.all guards) := by
  intro joined hguard
  cases guards with
  | nil => exact reads_true joined
  | cons first rest =>
    rw [bracketed, Bool.and_eq_true] at hguard
    obtain ⟨hplace, hmembers⟩ := hguard
    have hother : ∀ before, before = Connective.and ∨ before = .or := by
      intro before
      cases before <;> decide
    have hseparator : " && " = " " ++ Connective.and.text ++ " " := by decide +kernel
    rw [eval, evalAll_eq_foldl, render, if_neg (by simp), renderAll_eq_map, hseparator]
    exact reads_joined hreads (joined_of_place hother hplace) hmembers

/-- A disjunction is read as its value if its members are. -/
theorem ReadsAs.any {guards : List Guard}
    (hreads : ∀ guard ∈ guards, ReadsAs dialect command succeeds holds guard) :
    ReadsAs dialect command succeeds holds (.any guards) := by
  intro joined hguard
  cases guards with
  | nil => exact reads_false joined
  | cons first rest =>
    rw [bracketed, Bool.and_eq_true] at hguard
    obtain ⟨hplace, hmembers⟩ := hguard
    have hother : ∀ before, before = Connective.or ∨ before = .and := by
      intro before
      cases before <;> decide
    have hseparator : " || " = " " ++ Connective.or.text ++ " " := by decide +kernel
    rw [eval, evalAny_eq_foldl, render, if_neg (by simp), renderAny_eq_map, hseparator]
    exact reads_joined hreads (joined_of_place hother hplace) hmembers

/-- The tests of a guard are among those of a list that it is in. -/
theorem tests_subset_testsOf {guard : Guard} {guards : List Guard} (hguard : guard ∈ guards) :
    guard.tests ⊆ testsOf guards := by
  induction guards with
  | nil => cases hguard
  | cons first rest ih =>
    rw [testsOf]
    rcases List.mem_cons.mp hguard with rfl | hrest
    · exact List.subset_append_left _ _
    · exact List.subset_append_of_subset_right _ (ih hrest)

/-- Every guard is read as its value, by induction on the guard. -/
theorem readsAs : ∀ guard : Guard,
    (∀ test ∈ guard.tests, Asks dialect command succeeds holds test) →
      ReadsAs dialect command succeeds holds guard
  | test t, hasks => fun _ _ => (hasks t List.mem_cons_self).reads _
  | not guard, hasks => (readsAs guard hasks).not hasks
  | all guards, hasks => ReadsAs.all fun guard hguard =>
      readsAs guard fun test htest => hasks test (tests_subset_testsOf hguard htest)
  | any guards, hasks => ReadsAs.any fun guard hguard =>
      readsAs guard fun test htest => hasks test (tests_subset_testsOf hguard htest)

/-- The command list written for a guard has the value of the guard, if no conjunction of
several guards in it is written behind `||` without a group. -/
theorem value_render (guard : Guard) (hguard : guard.bracketed none = true)
    (hasks : ∀ test ∈ guard.tests, Asks dialect command succeeds holds test) :
    value? dialect succeeds (guard.render dialect.grouping command) =
      some (guard.eval holds) := by
  have hreads := readsAs guard hasks none hguard
  rw [Pending.result_first] at hreads
  exact hreads.value?_eq

/-- A disjunction after a negated test is grouped, and the list of commands holds if the
second option is given. -/
theorem value_render_composition :
    let guard := all [(test (.hasOption ["-a"])).not,
      any [test (.positionalCount .eq 1), test (.hasOption ["-b"])]]
    let succeeds (words : List String) := words == ["helper", "has_option", "-b"]
    guard.bracketed none = true ∧
      value? .posix succeeds (guard.render .posix (Zsh.testCommand "helper")) =
        some (guard.eval (· == .hasOption ["-b"])) := by
  intro guard succeeds
  have hhelper : IsCommand .posix "helper" ["helper"] := by constructor <;> decide +kernel
  have hguard : guard.bracketed none = true := rfl
  refine ⟨hguard, value_render guard hguard fun test htest => ?_⟩
  refine ⟨_, isCommand_testCommand hhelper test, ?_⟩
  have htests : ∀ test ∈ guard.tests,
      run succeeds (["helper"] ++ (arguments Text.escape test).flatMap (·.2)) =
        (test == .hasOption ["-b"]) := by
    decide +kernel
  exact htests test htest

/-- A conjunction of two tests that is the only member of another one is read as if its second
test were asked after the whole disjunction. -/
theorem value_render_hidden {x a b : Test} (hx : Asks dialect command succeeds holds x)
    (ha : Asks dialect command succeeds holds a) (hb : Asks dialect command succeeds holds b) :
    value? dialect succeeds
        ((any [test x, all [all [test a, test b]]]).render dialect.grouping command) =
      some ((holds x || holds a) && holds b) := by
  have hfirst : Reads dialect succeeds (command x ++ " " ++ Connective.or.text ++ " " ++ command a)
      {} (holds x || holds a) := by
    have hleft := hx.reads {}
    have hright := ha.reads { joined := some (holds x, .or) }
    rw [Pending.result_first] at hleft
    rw [Pending.result_joined] at hright
    exact hleft.join hright
  have hlast := hb.reads { joined := some (holds x || holds a, .and) }
  rw [Pending.result_joined] at hlast
  have hjoined := hfirst.join hlast
  have htext : (any [test x, all [all [test a, test b]]]).render dialect.grouping command =
      command x ++ " " ++ Connective.or.text ++ " " ++ command a ++ " " ++
        Connective.and.text ++ " " ++ command b := by
    apply String.toList_injective
    simp [render, renderAll, renderAny, groupedInAll, groupedInAny, Connective.text]
  rw [htext]
  exact hjoined.value?_eq

/-- If only the first option is given, the guard holds, but its command list fails. -/
theorem value_render_ne_eval :
    let guard := any [test (.hasOption ["-x"]),
      all [all [test (.hasOption ["-a"]), test (.hasOption ["-b"])]]]
    let command : Test → String
      | .hasOption options => "has " ++ " ".intercalate options
      | _ => "count 1"
    let holds (test : Test) := test == .hasOption ["-x"]
    let succeeds (words : List String) := words == ["has", "-x"]
    ∀ dialect : Dialect,
      (∀ test ∈ guard.tests, Asks dialect command succeeds holds test) ∧
        value? dialect succeeds (guard.render dialect.grouping command) = some false ∧
        guard.eval holds = true := by
  intro guard command holds succeeds dialect
  have hasks : ∀ option ∈ ["-x", "-a", "-b"],
      Asks dialect command succeeds holds (.hasOption [option]) := by
    intro option hoption
    have hword : IsSingleWord dialect option := by
      apply isSingleWord_of_isSafeWord
      revert option
      decide +kernel
    have hhas : IsCommand dialect "has" ["has"] := by
      constructor <;> cases dialect <;> decide +kernel
    have hrun : ∀ option ∈ ["-x", "-a", "-b"],
        run succeeds ["has", option] = holds (.hasOption [option]) := by
      decide +kernel
    have htext : command (.hasOption [option]) = "has" ++ " " ++ option := by
      simp [command]
    refine ⟨["has", option], ?_, hrun option hoption⟩
    rw [htext]
    exact hhas.append hword
  have hx := hasks "-x" (by simp)
  have ha := hasks "-a" (by simp)
  have hb := hasks "-b" (by simp)
  refine ⟨?_, value_render_hidden hx ha hb, rfl⟩
  intro test htest
  have htests : test ∈ ["-x", "-a", "-b"].map fun option => Test.hasOption [option] := htest
  obtain ⟨option, hoption, rfl⟩ := List.mem_map.mp htests
  exact hasks option hoption

end Reading

/-! ## Guards of arguments -/

/-- Only a disjunction needs a group behind `&&`. -/
theorem bracketed_and : ∀ {guard : Guard}, guard.groupedInAll = false →
    guard.bracketed (some .and) = guard.bracketed none
  | test _, _ => rfl
  | not _, _ => rfl
  | all [], _ => rfl
  | all (first :: rest), _ => by
    have hfirst : first.bracketed (if first.groupedInAll then none else some .and) =
        first.bracketed (if first.groupedInAll then none else none) := by
      cases hgrouped : first.groupedInAll with
      | true => rfl
      | false => exact bracketed_and hgrouped
    simp only [bracketed, bracketedMembers, hfirst]
    rfl

/-- A conjunction is bracketed if its members are. -/
theorem bracketed_all (guards : List Guard) :
    (all guards).bracketed none = guards.all (·.bracketed none) := by
  have hmember (guard : Guard) :
      guard.bracketed (if guard.groupedInAll then none else some .and) =
        guard.bracketed none := by
    cases hgrouped : guard.groupedInAll with
    | true => rfl
    | false => exact bracketed_and hgrouped
  cases guards with
  | nil => rfl
  | cons first rest =>
    simp only [bracketed, bracketedMembers, bracketedMembers_some, hmember, ite_self,
      List.all_cons]
    rfl

/-- Guards put together are bracketed if each of them is. -/
theorem bracketed_conj (guards : List Guard) :
    (conj guards).bracketed none = guards.all (·.bracketed none) :=
  conj_of_all (·.bracketed none) bracketed_all guards

end ShellCompletion.Guard

namespace ShellCompletion.Scope

variable {scope : Scope} {guard : Guard}

/-- The guard of a place on the command line is bracketed. -/
theorem bracketed_context (scope : Scope) : scope.context.bracketed none = true := by
  have htests (place : Nat) (outer : List Scope) :
      (contextTests place outer).all (·.bracketed none) = true := by
    induction outer generalizing place with
    | nil => rfl
    | cons enclosing outer ih =>
      rw [contextTests, List.all_append, ih, Bool.and_true]
      cases enclosing.subcommands[place]? <;> rfl
  rw [context, Guard.bracketed_conj, List.all_reverse]
  exact htests _ _

/-- The guard of a condition is bracketed. -/
theorem bracketed_of_whenGuard {when : Option Condition}
    (hguard : scope.whenGuard when = .ok guard) : guard.bracketed none = true := by
  cases when with
  | none =>
    cases hguard
    rfl
  | some condition =>
    obtain ⟨strings, -, rfl⟩ := compile_eq_ok.mp hguard
    rfl

/-- The guard of an option is bracketed. -/
theorem bracketed_of_optionGuard {declared : Declaration}
    (hguard : scope.optionGuard declared = .ok guard) : guard.bracketed none = true := by
  obtain ⟨shown, hshown, hresult⟩ := bind_eq_ok.mp hguard
  cases hresult
  have hcondition := bracketed_of_whenGuard hshown
  rw [Guard.bracketed_conj, List.all_append]
  split <;> simp [hcondition, Guard.negate, Guard.bracketed]

/-- The guard of a positional argument is bracketed. -/
theorem bracketed_of_positionalGuard {number : Nat} {positional : Positional}
    (hguard : scope.positionalGuard number positional = .ok guard) :
    guard.bracketed none = true := by
  obtain ⟨shown, hshown, hresult⟩ := bind_eq_ok.mp hguard
  cases hresult
  have hcondition := bracketed_of_whenGuard hshown
  rw [Guard.bracketed_conj]
  simp [hcondition, positionGuard, Guard.bracketed]

end ShellCompletion.Scope
