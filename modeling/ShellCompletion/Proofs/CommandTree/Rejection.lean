import ShellCompletion.Proofs.CommandTree.InPlace

/-!
# Rejected operations

An operation that is rejected leaves the tree as it was, also if it is carried out in steps on the
tree itself. The exception is a group of options: those before the rejected one stay.
-/

namespace ShellCompletion

/-- Whether a string of the option is in use by the command. -/
def Command.Uses (command : Command) (option : CommandOption) : Prop :=
  ∃ string ∈ option.strings, (command.findOption? string).isSome

namespace CommandTree

variable {tree after : CommandTree} {id : Nat} {error : Error}

/-- An option is rejected if one of its strings is in use. -/
theorem exists_addOption_eq_error {option : CommandOption} :
    (∃ error, tree.addOption id option = .error error) ↔ (tree.command id).Uses option := by
  rw [addOption, Command.Uses]
  split
  · rename_i string hfind
    have hused := List.find?_some hfind
    exact iff_of_true ⟨_, rfl⟩ ⟨string, List.mem_of_find?_eq_some hfind, hused⟩
  · rename_i hfind
    refine iff_of_false (by rintro ⟨_, ⟨⟩⟩) ?_
    rintro ⟨string, hstring, hused⟩
    exact List.find?_eq_none.mp hfind string hstring hused

/-- If a group is rejected, the options before the rejected one are added. -/
theorem exists_addGroup_eq (hid : id < tree.size) {group : String} {options : List CommandOption}
    (hrejected : (tree.addGroup id group options).2 = .error error) :
    ∃ added rejected rest, options = added ++ rejected :: rest ∧
      (tree.addGroup id group options).1 = tree.modify id (fun command =>
        { command with options := command.options ++ added.map (·.inGroup group) }) ∧
      ((tree.addGroup id group options).1.command id).Uses rejected := by
  induction options generalizing tree with
  | nil => cases hrejected
  | cons option rest ih =>
    rw [addGroup] at hrejected ⊢
    cases hadd : tree.addOption id (option.inGroup group) with
    | error _ =>
      have huses : (tree.command id).Uses (option.inGroup group) :=
        exists_addOption_eq_error.mp ⟨_, hadd⟩
      exact ⟨[], option, rest, rfl, (modify_eq_self (by simp)).symm, huses⟩
    | ok after =>
      rw [hadd] at hrejected
      obtain ⟨-, rfl⟩ := addOption_eq_ok.mp hadd
      obtain ⟨added, rejected, later, rfl, hafter, huses⟩ :=
        ih (by rwa [size_modify]) hrejected
      refine ⟨option :: added, rejected, later, rfl, hafter.trans ?_, huses⟩
      rw [modify_modify]
      exact modify_congr (by simp)

/-- An attempt that is rejected as a whole leaves the tree as it was. -/
theorem settle_eq_of_rejected {result : Except Error CommandTree}
    (hrejected : (Operation.settle tree result).2 = .error error) :
    (Operation.settle tree result).1 = tree := by
  cases result with
  | ok _ => cases hrejected
  | error _ => rfl

/-- A rejected group leaves the tree as it was exactly if the first of its options is rejected. -/
theorem addGroup_eq_self_iff (hid : id < tree.size) {group : String} {options : List CommandOption}
    (hrejected : (tree.addGroup id group options).2 = .error error) :
    (tree.addGroup id group options).1 = tree ↔
      ∀ first rest, options = first :: rest → (tree.command id).Uses first := by
  constructor
  · rintro heq first rest rfl
    obtain ⟨added, rejected, later, hoptions, hafter, huses⟩ := exists_addGroup_eq hid hrejected
    cases added with
    | nil =>
      obtain ⟨rfl, -⟩ := List.cons.inj hoptions
      rwa [heq] at huses
    | cons other added =>
      -- The command has more options than before.
      have hcount := congrArg (fun tree => (tree.command id).options.length)
        (hafter.symm.trans heq)
      simp [command_modify_self hid] at hcount
  · intro hfirst
    cases options with
    | nil => rfl
    | cons first rest =>
      have huses : (tree.command id).Uses (first.inGroup group) := hfirst first rest rfl
      obtain ⟨_, hadd⟩ := exists_addOption_eq_error.mpr huses
      rw [addGroup, hadd]

/-- What a rejected operation leaves. Carried out in steps on the tree itself or not, it leaves the
tree as it was, unless it adds a group of options whose first one can be added. Of a group, it
leaves the options before one with a string that is in use then. -/
theorem attempt_rejected {operation : Operation} (htarget : operation.target < tree.size)
    (hrejected : (operation.attempt tree).2 = .error error) :
    let after := (operation.attempt tree).1
    InPlace.runOn tree (.ofOperation operation) = (after, .error error) ∧
    (after = tree ↔ ∀ id group first rest, operation = .addGroup id group (first :: rest) →
      (tree.command id).Uses first) ∧
    ∀ id group options, operation = .addGroup id group options →
      ∃ added rejected rest, options = added ++ rejected :: rest ∧
        after = tree.modify id (fun command =>
          { command with options := command.options ++ added.map (·.inGroup group) }) ∧
        (after.command id).Uses rejected := by
  refine ⟨?_, ?_, ?_⟩
  · rw [InPlace.runOn_ofOperation htarget, ← hrejected]
  · cases operation with
    | rename name => cases hrejected
    | addPositional id positional => cases hrejected
    | addOption id option =>
      exact iff_of_true (settle_eq_of_rejected hrejected) (by rintro _ _ _ _ ⟨⟩)
    | addSlot id slot =>
      exact iff_of_true (settle_eq_of_rejected hrejected) (by rintro _ _ _ _ ⟨⟩)
    | addSubcommand id name help =>
      exact iff_of_true (settle_eq_of_rejected hrejected) (by rintro _ _ _ _ ⟨⟩)
    | addGroup id group options =>
      refine (addGroup_eq_self_iff htarget hrejected).trans ⟨fun hfirst => ?_, fun hfirst => ?_⟩
      · rintro _ _ first rest ⟨⟩
        exact hfirst first rest rfl
      · rintro first rest rfl
        exact hfirst id group first rest rfl
  · rintro id group options rfl
    exact exists_addGroup_eq htarget hrejected

/-- An option for a format. -/
def xmlFlag : CommandOption :=
  CommandOption.ofStrings ["--xml"] (by decide)

/-- A group of formats, one of which is there twice. -/
def addFormats : Operation :=
  .addGroup 0 "format" [xmlFlag, xmlFlag]

/-- A rejected group leaves its first option if only the second one is rejected, and nothing new if
the string is in use already. -/
theorem attempt_rejected_formats :
    let first := addFormats.attempt (new "prog")
    let second := addFormats.attempt first.1
    first.1 ≠ new "prog" ∧ second.1 = first.1 := by
  intro first second
  have hfirst : first.2 = .error (.invalidOption
      (.declaredTwice "--xml" (first.1.commandPath 0))) := rfl
  have hsecond : second.2 = .error (.invalidOption
      (.declaredTwice "--xml" (second.1.commandPath 0))) := rfl
  have htarget : addFormats.target < (new "prog").size := by decide
  have htarget' : addFormats.target < first.1.size := by decide +kernel
  have hunused : ¬ ((new "prog").command 0).Uses xmlFlag := by
    rintro ⟨string, -, hused⟩
    cases hused
  have huses : (first.1.command 0).Uses xmlFlag := ⟨"--xml", by decide, by decide +kernel⟩
  refine ⟨fun heq => ?_, ?_⟩
  · exact hunused ((attempt_rejected htarget hfirst).2.1.mp heq 0 "format" _ _ rfl)
  · refine (attempt_rejected htarget' hsecond).2.1.mpr ?_
    rintro id group option rest ⟨⟩
    exact huses

/-- A rejected operation can change the tree. -/
theorem attempt_ne_of_rejected :
    let after := addFormats.attempt (new "prog")
    addFormats.target < (new "prog").size ∧
      after.2 = .error (.invalidOption (.declaredTwice "--xml" "prog")) ∧ after.1 ≠ new "prog" := by
  intro after
  have hpath : after.1.commandPath 0 = "prog" := by decide +kernel
  refine ⟨by decide, ?_, by decide +kernel⟩
  rw [← hpath]
  rfl

end CommandTree
end ShellCompletion
