import ShellCompletion.Proofs.Scope.References
import ShellCompletion.Proofs.Script.Bash
import ShellCompletion.Proofs.Script.Fish
import ShellCompletion.Proofs.Script.Zsh
import ShellCompletion.Proofs.Specification
import ShellCompletion.Script.Basic

/-!
# Which specifications are compiled

For every shell, a script is written unless a condition is not compiled. Validation compiles
a condition in the command that declares it only; a script is written for every command that
shows the option of the condition.
-/

namespace ShellCompletion.CommandTree

variable {tree : CommandTree} {config : Config} {strict : Bool} {id : Nat}

/-- There is a function for every command on the walk. -/
theorem map_scope_functions (tree : CommandTree) (config : Config) :
    (tree.functions config).map (·.scope) = tree.walk.map (tree.scope config) := by
  rw [← map_fst_functionNames, functions, List.map_map, List.map_map]
  rfl

/-- Compiles the conditions of all options in all commands that show them. -/
def checkVisible (tree : CommandTree) (config : Config) : Except Error Unit :=
  (tree.walk.map (tree.scope config)).forM Scope.checkVisible

/-- If the conditions of a tree are compiled, those of every command on the walk are. -/
theorem WellFormed.checkConditions_of_mem (hwf : tree.WellFormed)
    (hchecked : tree.checkConditions config = .ok ()) :
    ∀ scope ∈ tree.walk.map (tree.scope config), scope.checkConditions = .ok () := by
  intro scope hscope
  obtain ⟨id, hid, rfl⟩ := List.mem_map.mp hscope
  exact forM_eq_ok.mp hchecked id (List.mem_range.mpr (hwf.mem_walk.mp hid))

/-- Writing the functions of all commands needs the conditions of the options that each
command shows. -/
theorem WellFormed.follows_functions (hwf : tree.WellFormed)
    (hchecked : tree.checkConditions config = .ok ()) {writer : FunctionWriter}
    (hsound : writer.Sound) : Follows (Emit.Knows writer.helpers)
      ((tree.functions config).mapM writer.render) (tree.checkVisible config) := by
  have hscopes := hwf.checkConditions_of_mem hchecked
  rw [checkVisible, ← map_scope_functions] at *
  rw [show ((tree.functions config).map (·.scope)).forM Scope.checkVisible =
    (tree.functions config).forM (·.scope.checkVisible) from List.forM_map]
  exact Follows.mapM fun function hfunction =>
    hsound.follows function (hscopes _ (List.mem_map_of_mem hfunction))

/-- A script is written unless a condition is not compiled, in the command that declares it or
in one that shows its option. -/
theorem WellFormed.follows_script (hwf : tree.WellFormed) (shell : Shell) (config : Config) :
    Follows (fun _ => True) (tree.script shell config)
      (tree.checkConditions config >>= fun _ => tree.checkVisible config) := by
  unfold script
  cases hchecked : tree.checkConditions config with
  | error error => exact fun _ _ => rfl
  | ok _ =>
    have hwriter : ∀ {writer : FunctionWriter}, writer.Sound →
        Follows (fun _ => True) (writer.script tree config) (tree.checkVisible config) :=
      fun hsound => (Emit.follows_run hsound.used (hwf.follows_functions hchecked hsound)).before
        fun _ => follows_pure _
    refine (follows_pure ()).after fun _ => ?_
    cases shell with
    | bash => exact hwriter (Bash.sound_writer tree)
    | zsh => exact hwriter (Zsh.sound_writer tree config)
    | fish =>
      have hsections : Follows (Emit.Knows (Fish.helpers tree.programName)) _ _ :=
        Fish.follows_sections (hwf.checkConditions_of_mem hchecked) []
      exact (Emit.follows_run rfl hsections).before fun _ => follows_pure _

/-- A script is written exactly if all conditions are compiled, in the commands that declare
them and in those that show their options. -/
theorem WellFormed.exists_script_iff_checks (hwf : tree.WellFormed) (shell : Shell)
    (config : Config) : (∃ text, (tree.script shell config).outcome.2 = .ok text) ↔
      tree.checkConditions config = .ok () ∧ tree.checkVisible config = .ok () := by
  rw [← discard_eq_ok, (hwf.follows_script shell config).discard_outcome, check_bind_eq_ok]

/-- The path of a command is that of its scope. -/
theorem commandPath_scope (tree : CommandTree) (config : Config) (id : Nat) :
    (tree.scope config id).commandPath = tree.commandPath id := by
  simp [Scope.commandPath, Scope.path, Scope.levels, scope, level, commandPath, path, lineage,
    Function.comp_def]

/-- The checks of all conditions fail for a string that a command does not know. -/
theorem WellFormed.exists_of_checks_eq_error (hwf : tree.WellFormed) {error : Error}
    (hchecks : (tree.checkConditions config >>= fun _ => tree.checkVisible config) =
      .error error) : ∃ id < tree.size, ∃ string,
        (tree.scope config id).findOption? string = none ∧
          error = .unresolvedOption (tree.commandPath id) string := by
  simp only [← commandPath_scope tree config]
  rcases bind_eq_error.mp hchecks with hconditions | ⟨_, _, hvisible⟩
  · obtain ⟨id, hid, hscope⟩ := exists_of_forM_eq_error hconditions
    exact ⟨id, List.mem_range.mp hid, Scope.exists_of_checkConditions_eq_error hscope⟩
  · obtain ⟨scope, hmem, hscope⟩ := exists_of_forM_eq_error hvisible
    obtain ⟨id, hid, rfl⟩ := List.mem_map.mp hmem
    exact ⟨id, hwf.mem_walk.mp hid, Scope.exists_of_checkVisible_eq_error hscope⟩

/-- A tree has scripts for all shells, or for none. Then all of them fail with the same error,
which is about a string that a condition names in a command where no visible option has it. -/
theorem script_all_or_none (hbuilt : tree.Built) (config : Config) :
    (∀ shell, ∃ text, (tree.script shell config).outcome.2 = .ok text) ∨
      ∃ id < tree.size, ∃ string, (tree.scope config id).findOption? string = none ∧
        ∀ shell, (tree.script shell config).outcome.2 =
          .error (.unresolvedOption (tree.commandPath id) string) := by
  have houtcome := fun shell => (hbuilt.wellFormed.follows_script shell config).discard_outcome
  cases hchecks : tree.checkConditions config >>= fun _ => tree.checkVisible config with
  | ok _ => exact .inl fun shell => discard_eq_ok.mp ((houtcome shell).trans hchecks)
  | error error =>
    obtain ⟨id, hid, string, hnone, rfl⟩ := hbuilt.wellFormed.exists_of_checks_eq_error hchecks
    exact .inr ⟨id, hid, string, hnone,
      fun shell => discard_eq_error.mp ((houtcome shell).trans hchecks)⟩

/-- The premise holds of a subcommand that declares one string of an option again to which an
inherited condition refers. -/
theorem script_all_or_none_tracing :
    let tree := withHeir (tracing "--verbose") [CommandOption.ofStrings ["-v"] (by decide)]
    tree.Built ∧ ((∀ shell, ∃ text, (tree.script shell {}).outcome.2 = .ok text) ∨
      ∃ id < tree.size, ∃ string, (tree.scope {} id).findOption? string = none ∧
        ∀ shell, (tree.script shell {}).outcome.2 =
          .error (.unresolvedOption (tree.commandPath id) string)) := by
  have hbuilt :
      (withHeir (tracing "--verbose") [CommandOption.ofStrings ["-v"] (by decide)]).Built :=
    built_withHeir (pairwise_tracing "--verbose") (List.pairwise_singleton _ _)
  exact ⟨hbuilt, script_all_or_none hbuilt {}⟩

/-! ## Conditions of inherited options -/

/-- Every condition of an option that a command inherits refers to options that the command
shows. -/
def ResolvesInherited (tree : CommandTree) (config : Config) : Prop :=
  ∀ id < tree.size, ∀ declared ∈ (tree.scope config id).inheritedOptions,
    ∀ condition ∈ declared.option.when, ∀ string ∈ condition.options,
      ∃ meant, (tree.scope config id).resolveReference string = .ok meant

/-- If all conditions are compiled where they are declared, only those of inherited options
are left. -/
theorem WellFormed.checkVisible_eq_ok (hwf : tree.WellFormed)
    (hchecked : tree.checkConditions config = .ok ()) :
    tree.checkVisible config = .ok () ↔ tree.ResolvesInherited config := by
  simp only [checkVisible, forM_eq_ok, List.forall_mem_map, hwf.mem_walk]
  refine forall₂_congr fun id hid => ?_
  have hscope := forM_eq_ok.mp hchecked id (List.mem_range.mpr hid)
  rw [Scope.checkVisible_eq_ok]
  constructor
  · exact fun hvisible declared hinherited => hvisible declared (List.mem_append_right _ hinherited)
  · intro hinherited declared hdeclared condition hcondition
    rcases List.mem_append.mp hdeclared with hown | hmem
    · intro string hstring
      exact Scope.exists_resolveReference_of_mem_ownOptions hscope hown hcondition hstring
    · exact hinherited declared hmem condition hcondition

/-- No condition of an inherited option is lost if no command declares a string again of an
option that the condition means where it is declared. -/
theorem WellFormed.resolvesInherited (hwf : tree.WellFormed)
    (hchecked : tree.checkConditions config = .ok ())
    (hfree : ∀ id < tree.size, ∀ declaring ∈ tree.lineage id,
      ∀ declared ∈ (tree.scope config declaring).ownOptions,
        ∀ condition ∈ declared.option.when, ∀ string ∈ condition.options,
          ∀ meant, (tree.scope config declaring).resolveReference string = .ok meant →
            ¬ tree.RedeclaredBetween declaring id meant.option.strings) :
    tree.ResolvesInherited config := by
  intro id hid declared hinherited condition hcondition string hstring
  have hvisible : declared ∈ (tree.scope config id).visibleOptions :=
    List.mem_append_right _ hinherited
  obtain ⟨declaring, hdeclaring, hown, -⟩ := hwf.mem_visibleOptions.mp hvisible
  have hlt : declaring < tree.size := Nat.lt_of_le_of_lt (le_of_mem_lineage hdeclaring) hid
  have hscope := forM_eq_ok.mp hchecked declaring (List.mem_range.mpr hlt)
  obtain ⟨meant, hmeant⟩ :=
    Scope.exists_resolveReference_of_mem_ownOptions hscope hown hcondition hstring
  have hkept := hfree id hid declaring hdeclaring declared hown condition hcondition string
    hstring meant hmeant
  exact ⟨meant, (hwf.resolveReference_eq_ok_iff hdeclaring hown hvisible hmeant).mpr hkept⟩

/-- A tree that passes validation has a script for a shell exactly if the conditions of
inherited options refer to options in the commands that inherit them. -/
theorem exists_script_iff (hbuilt : tree.Built)
    (hvalid : (tree.validate strict config).outcome.2 = .ok ()) (shell : Shell) :
    (∃ text, (tree.script shell config).outcome.2 = .ok text) ↔ tree.ResolvesInherited config := by
  have hchecked := (validate_eq_ok.mp hvalid).2
  rw [hbuilt.wellFormed.exists_script_iff_checks, and_iff_right hchecked,
    hbuilt.wellFormed.checkVisible_eq_ok hchecked]

/-- The premises hold of a subcommand that inherits a condition. -/
theorem exists_script_iff_tracing :
    let tree := withHeir (tracing "--verbose") []
    tree.Built ∧ (tree.validate true {}).outcome.2 = .ok () ∧
      ((∃ text, (tree.script .fish {}).outcome.2 = .ok text) ↔ tree.ResolvesInherited {}) := by
  have hbuilt : (withHeir (tracing "--verbose") []).Built :=
    built_withHeir (pairwise_tracing "--verbose") .nil
  have hvalid : ((withHeir (tracing "--verbose") []).validate true {}).outcome.2 = .ok () := rfl
  exact ⟨hbuilt, hvalid, exists_script_iff hbuilt hvalid .fish⟩

/-- A program with a condition whose subcommand declares one string of the option that the
condition means again. -/
def shadowing : CommandTree :=
  withHeir (tracing "--verbose") [CommandOption.ofStrings ["-v"] (by decide)]

/-- The document of the program. -/
def tracingDocument : CommandDocument where
  prog := "prog"
  options := [{ optionStrings := ["-v", "--verbose"], takesArgs := .absent },
    { optionStrings := ["--trace"], takesArgs := .absent, when := some "has_option --verbose" }]

/-- The document of the subcommand. -/
def shadowingDocument : CommandDocument where
  prog := "prog sub"
  inheritOptions := .set true
  options := [{ optionStrings := ["-v"], takesArgs := .absent }]

/-- The tree is read from the two documents. -/
theorem ofDocuments_shadowingDocument :
    ofDocuments [tracingDocument, shadowingDocument] = .ok shadowing := by
  have hname : tracingDocument.path = ["prog"] := by decide +kernel
  rw [ofDocuments_pair hname (by decide +kernel)]
  simp only [CommandDocument.applyTo, CommandDocument.addTo, CommandDocument.orderedPositionals,
    List.foldlM_cons, List.foldlM_nil, tracingDocument, shadowingDocument, List.mergeSort_nil]
  rfl

/-- The tree passes validation, but has no script for any shell: the condition names the option
by its other string, which means nothing in the subcommand. -/
theorem not_exists_script_of_valid : ∃ tree,
    ofDocuments [tracingDocument, shadowingDocument] = .ok tree ∧
      (tree.validate true {}).outcome.2 = .ok () ∧
      ∀ shell, ¬ ∃ text, (tree.script shell {}).outcome.2 = .ok text := by
  refine ⟨shadowing, ofDocuments_shadowingDocument, rfl, fun shell => ?_⟩
  have hbuilt : shadowing.Built :=
    built_withHeir (pairwise_tracing "--verbose") (List.pairwise_singleton _ _)
  rw [hbuilt.wellFormed.exists_script_iff_checks]
  rintro ⟨hchecked, hvisible⟩
  have hinherited : traceOption "--verbose" ∈ (shadowing.scope {} 1).inheritedOptions := by
    decide +kernel
  have hnone : (shadowing.scope {} 1).findOption? "--verbose" = none := by decide +kernel
  obtain ⟨meant, hmeant⟩ := (hbuilt.wellFormed.checkVisible_eq_ok hchecked).mp hvisible 1
    (by decide) _ hinherited _ rfl "--verbose" (List.mem_singleton_self _)
  rw [Scope.resolveReference, hnone] at hmeant
  cases hmeant

end ShellCompletion.CommandTree
