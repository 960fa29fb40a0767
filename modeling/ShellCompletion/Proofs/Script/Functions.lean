import ShellCompletion.Proofs.CommandTree.Walk
import ShellCompletion.Proofs.Scope.Guards
import ShellCompletion.Proofs.Script.Emit
import ShellCompletion.Script.Outline

/-!
# Scripts of functions

A script defines the helper functions in use and a function for each command. The helper
functions have different names, and so have the functions of the commands.
-/

namespace ShellCompletion

/-- There are as many distinct names as names. -/
theorem length_distinctNames (taken names : List String) :
    (distinctNames taken names).length = names.length := by
  induction names generalizing taken with
  | nil => rfl
  | cons base rest ih => rw [distinctNames, List.length_cons, ih, List.length_cons]

/-- A definition of a function. -/
structure FunctionDefinition where
  /-- The name. -/
  name : String
  /-- The body. -/
  body : String

/-- The definition in shell code. -/
def FunctionDefinition.render (definition : FunctionDefinition) : String :=
  FunctionStyle.posix.define definition.name definition.body

/-- The helper functions in use are defined under their names. -/
theorem Helpers.exists_code {helpers : Helpers} (hstyle : helpers.style = .posix) :
    ∃ definitions : List FunctionDefinition,
      helpers.code = definitions.map (·.render) ∧ definitions.map (·.name) = helpers.names := by
  refine ⟨helpers.used.map fun helper => ⟨helper.name, Text.indent helper.body 2⟩, ?_, ?_⟩
  · rw [code, hstyle, List.map_map]
    rfl
  · rw [names, List.map_map]
    rfl

namespace CommandTree

variable {tree : CommandTree} {config : Config} {id : Nat}

/-- The names of the functions of all commands. -/
def commandFunctions (tree : CommandTree) : List String :=
  tree.functionNames.map (·.2)

/-- Every command on the walk has a function. -/
theorem map_fst_functionNames (tree : CommandTree) : tree.functionNames.map (·.1) = tree.walk := by
  refine List.map_fst_zip (Nat.le_of_eq ?_)
  rw [length_distinctNames, List.length_map]

/-- The functions of all commands have the names that are made different from one another. -/
theorem commandFunctions_eq (tree : CommandTree) : tree.commandFunctions =
    distinctNames [] (tree.walk.map tree.baseFunctionName) := by
  refine List.map_snd_zip (Nat.le_of_eq ?_)
  rw [length_distinctNames, List.length_map]

/-- The functions of all commands have different names. -/
theorem nodup_commandFunctions (tree : CommandTree) : tree.commandFunctions.Nodup := by
  rw [commandFunctions_eq]
  exact (nodup_distinctNames _ _).1

/-- The name of a command's function is one of those. -/
theorem functionName_mem (hid : id ∈ tree.walk) : tree.functionName id ∈ tree.commandFunctions := by
  rw [← map_fst_functionNames] at hid
  obtain ⟨entry, hentry, rfl⟩ := List.mem_map.mp hid
  have hsome : (tree.functionNames.lookup entry.1).isSome = true :=
    List.lookup_isSome_iff.mpr ⟨entry, hentry, beq_self_eq_true _⟩
  obtain ⟨name, hname⟩ := Option.isSome_iff_exists.mp hsome
  obtain ⟨before, after, hsplit, -⟩ := List.lookup_eq_some_iff.mp hname
  rw [functionName, hname, commandFunctions, hsplit]
  simp

/-- The functions of the subcommands are functions of commands. -/
theorem WellFormed.targets_subset (hwf : tree.WellFormed) {function : CommandFunction}
    (hfunction : function ∈ tree.functions config) : function.targets ⊆ tree.commandFunctions := by
  obtain ⟨⟨id, name⟩, -, rfl⟩ := List.mem_map.mp hfunction
  intro target htarget
  obtain ⟨child, hchild, rfl⟩ := List.mem_map.mp htarget
  exact functionName_mem ((hwf.children_sublist_walk id).subset hchild)

/-- The functions of the commands are defined under their names. -/
theorem exists_definitions {functions : List CommandFunction} {texts : List String}
    (htexts : List.Forall₂ (fun function text =>
      ∃ body, text = FunctionStyle.posix.define function.name body) functions texts) :
    ∃ definitions : List FunctionDefinition,
      texts = definitions.map (·.render) ∧ definitions.map (·.name) = functions.map (·.name) := by
  induction htexts with
  | nil => exact ⟨[], rfl, rfl⟩
  | cons hfirst hrest ih =>
    obtain ⟨body, rfl⟩ := hfirst
    obtain ⟨definitions, rfl, hnames⟩ := ih
    exact ⟨⟨_, body⟩ :: definitions, rfl, congrArg _ hnames⟩

/-- The functions have the names of the commands' functions. -/
theorem map_name_functions (tree : CommandTree) (config : Config) :
    (tree.functions config).map (·.name) = tree.commandFunctions := by
  rw [functions, List.map_map]
  rfl

end CommandTree

/-! ## Writers -/

/-- What is known about the writer for a shell. -/
structure FunctionWriter.Sound (writer : FunctionWriter) : Prop where
  /-- No helper function is in use at first. -/
  used : writer.helpers.used = []
  /-- Functions are defined by names and parentheses. -/
  style : writer.helpers.style = .posix
  /-- Writing the function of a command needs the conditions of the options that the command
  shows, if those of its own arguments are compiled. -/
  follows : ∀ function : CommandFunction, function.scope.checkConditions = .ok () →
    Follows (Emit.Knows writer.helpers) (writer.render function) function.scope.checkVisible
  /-- The function is defined under its name. -/
  gives : ∀ function : CommandFunction, Gives (writer.render function) fun text =>
    ∃ body, text = FunctionStyle.posix.define function.name body

end ShellCompletion
