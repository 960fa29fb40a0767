import ShellCompletion.Proofs.Scope.Guards

/-!
# What conditions refer to

A condition names options by strings, and is compiled in every scope that shows its
option. Between the command that declares the condition and the one that shows it, commands
may declare the same strings again; the condition then refers to other options, or to none.
-/

namespace ShellCompletion.Scope

variable {scope outer : Scope} {declared : Declaration}

/-- What an enclosing command shows, a command inside it that inherits options shows
exactly if no level between declares one of the strings again. -/
theorem mem_visibleOptions_of_enclosing {between : List Level}
    (hlevels : scope.levels = between ++ outer.levels) (hinherit : scope.inheritOptions = true)
    (hvisible : declared ∈ outer.visibleOptions) :
    declared ∈ scope.visibleOptions ↔ redeclares between declared.option.strings = false := by
  obtain ⟨nearer, level, rest, ⟨houter, hmem⟩, hshadow, -⟩ := mem_visibleOptions.mp hvisible
  have hdeclares : Declares scope.levels (between ++ nearer) level rest declared :=
    ⟨by rw [hlevels, houter, List.append_assoc], hmem⟩
  have hparts : redeclares (between ++ nearer) declared.option.strings = false ↔
      redeclares between declared.option.strings = false := by
    rw [redeclares, List.any_append, Bool.or_eq_false_iff]
    exact and_iff_left hshadow
  rw [mem_visibleOptions, ← hparts]
  constructor
  · rintro ⟨_, _, _, hdeclares', hshadow', -⟩
    obtain ⟨rfl, -, -⟩ := hdeclares.level_eq hdeclares' rfl
    exact hshadow'
  · intro hshadow'
    exact ⟨_, level, rest, hdeclares, hshadow', .inr hinherit⟩

/-- A command that shows an option of an enclosing one inherits options. -/
theorem inheritOptions_of_mem {between : List Level} (hbetween : between ≠ [])
    (hlevels : scope.levels = between ++ outer.levels) (hown : declared ∈ outer.ownOptions)
    (hvisible : declared ∈ scope.visibleOptions) : scope.inheritOptions = true := by
  obtain ⟨nearer, level, rest, hdeclares, -, hinherit⟩ := mem_visibleOptions.mp hvisible
  have hdeclares' : Declares scope.levels between outer.own outer.outer declared := ⟨hlevels, hown⟩
  obtain ⟨rfl, -, -⟩ := hdeclares.level_eq hdeclares' rfl
  exact hinherit.resolve_left hbetween

end ShellCompletion.Scope

namespace ShellCompletion.CommandTree

variable {tree : CommandTree} {config : Config} {id declaring : Nat} {declared : Declaration}
  {condition : Condition}

/-- A command inside an enclosing one, on the line of an inner one, declares one of the
strings. -/
def RedeclaredBetween (tree : CommandTree) (enclosing inner : Nat) (strings : List String) :
    Prop :=
  ∃ nearer ∈ tree.lineage inner, nearer ∉ tree.lineage enclosing ∧
    ∃ option ∈ (tree.command nearer).options, ∃ string ∈ option.strings, string ∈ strings

/-- The levels between two commands redeclare strings if one of the commands does. -/
theorem WellFormed.redeclares_eq_false (hwf : tree.WellFormed) {between : List Nat}
    (hlineage : tree.lineage id = between ++ tree.lineage declaring) {strings : List String} :
    Scope.redeclares (between.map tree.level) strings = false ↔
      ¬ tree.RedeclaredBetween declaring id strings := by
  have hnodup := hwf.nodup_lineage id
  rw [hlineage] at hnodup
  rw [Scope.redeclares_eq_false, List.forall_mem_map, RedeclaredBetween, hlineage]
  constructor
  · rintro hdisjoint ⟨nearer, hnearer, houtside, option, hoption, string, hstring, hmem⟩
    have hbetween := (List.mem_append.mp hnearer).resolve_right houtside
    exact hdisjoint nearer hbetween option hoption hstring hmem
  · intro hfree nearer hnearer option hoption string hstring hmem
    have houtside : nearer ∉ tree.lineage declaring :=
      (List.disjoint_of_nodup_append hnodup) hnearer
    exact hfree ⟨nearer, List.mem_append_left _ hnearer, houtside, option, hoption, string,
      hstring, hmem⟩

/-- A command shows its own options and, if it inherits options, those of the enclosing
commands of whose strings no command between declares one again. -/
theorem WellFormed.mem_visibleOptions (hwf : tree.WellFormed) :
    declared ∈ (tree.scope config id).visibleOptions ↔
      ∃ declaring ∈ tree.lineage id, declared ∈ (tree.scope config declaring).ownOptions ∧
        (declaring = id ∨ (tree.scope config id).inheritOptions = true ∧
          ¬ tree.RedeclaredBetween declaring id declared.option.strings) := by
  have hlevels : (tree.scope config id).levels = (tree.lineage id).map tree.level := rfl
  have hline : ∀ declaring, ((tree.lineage declaring).map tree.level) =
      tree.level declaring :: (tree.ancestors declaring).map tree.level := fun _ => rfl
  rw [Scope.mem_visibleOptions, hlevels]
  constructor
  · rintro ⟨nearer, level, outer, ⟨hsplit, hmem⟩, hshadow, hinherit⟩
    obtain ⟨before, rest, hlineage, rfl, hrest⟩ := List.map_eq_append_iff.mp hsplit
    obtain ⟨declaring, after, rfl, rfl, rfl⟩ := List.map_eq_cons_iff.mp hrest
    obtain rfl := hwf.ancestors_of_lineage hlineage
    refine ⟨declaring, by rw [hlineage]; simp, hmem, ?_⟩
    rcases hinherit with hbefore | hinherit
    · rw [List.map_eq_nil_iff.mp hbefore] at hlineage
      exact .inl (List.cons.inj hlineage).1.symm
    · exact .inr ⟨hinherit, (hwf.redeclares_eq_false hlineage).mp hshadow⟩
  · rintro ⟨declaring, hdeclaring, hown, hinherit⟩
    obtain ⟨before, hbefore⟩ := hwf.lineage_suffix hdeclaring
    rw [← hbefore, List.map_append, hline]
    refine ⟨_, _, _, ⟨rfl, hown⟩, ?_⟩
    rcases hinherit with rfl | ⟨hinherit, hfree⟩
    · rw [List.append_left_eq_self.mp hbefore]
      exact ⟨rfl, .inl rfl⟩
    · exact ⟨(hwf.redeclares_eq_false hbefore.symm).mpr hfree, .inr hinherit⟩

/-- An option means the same in an inner command as in the enclosing one that shows it,
exactly if no command between declares one of its strings again. -/
theorem WellFormed.resolveReference_eq_ok_iff (hwf : tree.WellFormed)
    (hdeclaring : declaring ∈ tree.lineage id)
    (hown : declared ∈ (tree.scope config declaring).ownOptions)
    (hvisible : declared ∈ (tree.scope config id).visibleOptions) {string : String}
    {meant : Declaration}
    (hmeant : (tree.scope config declaring).resolveReference string = .ok meant) :
    (tree.scope config id).resolveReference string = .ok meant ↔
      ¬ tree.RedeclaredBetween declaring id meant.option.strings := by
  obtain ⟨between, hlineage⟩ := hwf.lineage_suffix hdeclaring
  have hlevels : (tree.scope config id).levels =
      between.map tree.level ++ (tree.scope config declaring).levels := by
    change (tree.lineage id).map tree.level = _
    rw [← hlineage, List.map_append]
    rfl
  rw [(hwf.distinct config declaring).resolveReference_eq_ok] at hmeant
  rw [(hwf.distinct config id).resolveReference_eq_ok, and_iff_left hmeant.2,
    ← hwf.redeclares_eq_false hlineage.symm]
  by_cases hbetween : between = []
  · rw [hbetween, List.nil_append] at hlineage
    obtain rfl : declaring = id := (List.cons.inj hlineage).1
    rw [hbetween]
    exact iff_of_true hmeant.1 rfl
  · have hinherit := Scope.inheritOptions_of_mem (by simpa using hbetween) hlevels hown hvisible
    exact Scope.mem_visibleOptions_of_enclosing hlevels hinherit hmeant.1

/-- A condition that the declaring command compiles refers to the same options in a command
that shows its option, exactly if no command between declares a string of one of them
again. The guard of the option then holds if no conflicting string was given and the guard
that the declaring command compiles holds. -/
theorem resolveReference_eq_iff {guard : Guard} (hbuilt : tree.Built)
    (hdeclaring : declaring ∈ tree.lineage id)
    (hown : declared ∈ (tree.scope config declaring).ownOptions)
    (hvisible : declared ∈ (tree.scope config id).visibleOptions)
    (hwhen : declared.option.when = some condition)
    (hcompiles : (tree.scope config declaring).compile condition = .ok guard) :
    let home := tree.scope config declaring
    let scope := tree.scope config id
    ((∀ string ∈ condition.options,
        scope.resolveReference string = home.resolveReference string) ↔
      ∀ string ∈ condition.options, ∀ meant, home.resolveReference string = .ok meant →
        ¬ tree.RedeclaredBetween declaring id meant.option.strings) ∧
    ((∀ string ∈ condition.options,
        scope.resolveReference string = home.resolveReference string) →
      ∃ offered, scope.optionGuard declared = .ok offered ∧ ∀ line, offered.holds line =
        (!line.hasOption (scope.conflictingStrings declared) && guard.holds line)) := by
  intro home scope
  have hiff : ∀ {string meant}, home.resolveReference string = .ok meant →
      (scope.resolveReference string = .ok meant ↔
        ¬ tree.RedeclaredBetween declaring id meant.option.strings) :=
    hbuilt.wellFormed.resolveReference_eq_ok_iff hdeclaring hown hvisible
  refine ⟨⟨fun hsame string hstring meant hmeant => ?_, fun hfree string hstring => ?_⟩,
    fun hsame => ?_⟩
  · exact (hiff hmeant).mp ((hsame string hstring).trans hmeant)
  · obtain ⟨meant, hmeant⟩ := Scope.exists_compile_iff.mp ⟨guard, hcompiles⟩ string hstring
    rw [hmeant]
    exact (hiff hmeant).mpr (hfree string hstring meant hmeant)
  · refine Scope.exists_optionGuard ?_
    rw [hwhen]
    exact (Scope.compile_congr hsame).trans hcompiles

/-- A program with an option that is shown when another one was given, named by a string. -/
def tracing (reference : String) : List CommandOption :=
  [CommandOption.ofStrings ["-v", "--verbose"] (by decide),
    { CommandOption.ofStrings ["--trace"] (by decide) with
      when := some (.hasOption [reference]) }]

/-- The options are told apart. -/
theorem pairwise_tracing (reference : String) :
    (tracing reference).Pairwise fun a b => a.strings.Disjoint b.strings := by
  simp [tracing, CommandOption.ofStrings]

/-- The option with the condition, seen from anywhere. -/
def traceOption (reference : String) : Declaration :=
  ⟨0, 1, { CommandOption.ofStrings ["--trace"] (by decide) with
    when := some (.hasOption [reference]) }⟩

/-- The premises hold of a subcommand without options. -/
theorem resolveReference_eq_iff_tracing :
    let tree := withHeir (tracing "-v") []
    let home := tree.scope {} 0
    let scope := tree.scope {} 1
    tree.Built ∧ 0 ∈ tree.lineage 1 ∧ traceOption "-v" ∈ home.ownOptions ∧
      traceOption "-v" ∈ scope.visibleOptions ∧
      ∃ guard, home.compile (.hasOption ["-v"]) = .ok guard ∧
        ((∀ string ∈ ["-v"], scope.resolveReference string = home.resolveReference string) ↔
          ∀ string ∈ ["-v"], ∀ meant, home.resolveReference string = .ok meant →
            ¬ tree.RedeclaredBetween 0 1 meant.option.strings) ∧
        ((∀ string ∈ ["-v"], scope.resolveReference string = home.resolveReference string) →
          ∃ offered, scope.optionGuard (traceOption "-v") = .ok offered ∧
            ∀ line, offered.holds line =
              (!line.hasOption (scope.conflictingStrings (traceOption "-v")) &&
                guard.holds line)) := by
  have hbuilt : (withHeir (tracing "-v") []).Built := built_withHeir (pairwise_tracing "-v") .nil
  have hown : traceOption "-v" ∈ ((withHeir (tracing "-v") []).scope {} 0).ownOptions := by
    decide +kernel
  have hvisible : traceOption "-v" ∈ ((withHeir (tracing "-v") []).scope {} 1).visibleOptions := by
    decide +kernel
  have hline : 0 ∈ (withHeir (tracing "-v") []).lineage 1 := by decide +kernel
  exact ⟨hbuilt, hline, hown, hvisible, _, rfl,
    resolveReference_eq_iff hbuilt hline hown hvisible rfl rfl⟩

/-- If the subcommand declares one of the strings again, the condition refers to the option
of the subcommand. -/
theorem resolveReference_ne_of_redeclared :
    let tree := withHeir (tracing "-v") [CommandOption.ofStrings ["-v", "--version"] (by decide)]
    let home := tree.scope {} 0
    let scope := tree.scope {} 1
    tree.Built ∧ 0 ∈ tree.lineage 1 ∧ traceOption "-v" ∈ home.ownOptions ∧
      traceOption "-v" ∈ scope.visibleOptions ∧
      (∃ guard, home.compile (.hasOption ["-v"]) = .ok guard) ∧
      (∃ offered, scope.optionGuard (traceOption "-v") = .ok offered) ∧
      ∃ meant other, home.resolveReference "-v" = .ok meant ∧
        scope.resolveReference "-v" = .ok other ∧ meant ≠ other := by
  refine ⟨built_withHeir (pairwise_tracing "-v") (List.pairwise_singleton _ _), by decide +kernel,
    by decide +kernel, by decide +kernel, ⟨_, rfl⟩, ⟨_, rfl⟩, _, _, rfl, rfl, ?_⟩
  decide +kernel

end ShellCompletion.CommandTree
