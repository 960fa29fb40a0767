import ShellCompletion.Proofs.Script.Compilation
import ShellCompletion.Proofs.Specification

/-!
# Which functions a script defines

Every function that a script for bash or zsh calls is defined in it. Helper functions have
different names, and so have the functions of commands. But both begin with the name of the
program, so the function of a subcommand can have the name of a helper function.
-/

namespace ShellCompletion

namespace CommandTree

variable {tree : CommandTree} {config : Config} {writer : FunctionWriter} {text : String}

/-- If all conditions are compiled and no command inherits options, there are scripts for all
shells. -/
theorem WellFormed.exists_script_of_inheritedOptions_eq_nil (hwf : tree.WellFormed)
    (hchecked : tree.checkConditions config = .ok ())
    (hnone : ∀ id < tree.size, (tree.scope config id).inheritedOptions = []) (shell : Shell) :
    ∃ text, (tree.script shell config).outcome.2 = .ok text := by
  refine (hwf.exists_script_iff_checks shell config).mpr
    ⟨hchecked, (hwf.checkVisible_eq_ok hchecked).mpr fun id hid declared hinherited => ?_⟩
  rw [hnone id hid] at hinherited
  cases hinherited

/-- The writers of scripts with functions write the scripts for their shells. -/
theorem script_eq_ok (hwriter : writer = Bash.writer tree ∨ writer = Zsh.writer tree config)
    (hscript : (tree.script writer.shell config).outcome.2 = .ok text) :
    tree.checkConditions config = .ok () ∧
      (writer.script tree config).outcome.2 = .ok text := by
  have hshell : tree.script writer.shell config =
      Logged.ofExcept (tree.checkConditions config) >>= fun _ => writer.script tree config := by
    rcases hwriter with rfl | rfl <;> rfl
  rw [hshell] at hscript
  exact Logged.outcome_ofExcept_bind_eq_ok.mp hscript

/-- A script is written if the functions of all commands are. -/
theorem exists_functions (hscript : (writer.script tree config).outcome.2 = .ok text) :
    ∃ functions state, (tree.functions config).mapM writer.render { helpers := writer.helpers } =
      .ok functions state ∧ (writer.functions tree config).outcome.2 = .ok (functions, state) ∧
        text = assemble ([writer.header] ++ includedSections config ++ state.helpers.code ++
          functions ++ [writer.registration] ++ modelineSection config writer.shell) := by
  obtain ⟨warnings, hrun⟩ := Logged.outcome_eq_ok.mp hscript
  obtain ⟨_, _, hfunctions, hlayout⟩ := bind_apply_eq_ok.mp hrun
  cases hlayout
  have hwritten := Logged.outcome_eq_ok.mpr ⟨_, hfunctions⟩
  rw [FunctionWriter.functions, Emit.run_apply] at hfunctions
  split at hfunctions
  · rename_i functions state hsteps
    cases hfunctions
    exact ⟨functions, state, hsteps, hwritten, rfl⟩
  · cases hfunctions

/-- A script for bash or zsh consists of definitions of functions, between what it begins with
and what makes the shell call the program's function. All functions that it calls are defined:
the helper functions, the functions of subcommands, and that of the program. They have
different names exactly if no command's function has the name of a helper function that is
called. -/
theorem definitions_of_script (hbuilt : tree.Built)
    (hwriter : writer = Bash.writer tree ∨ writer = Zsh.writer tree config)
    (hscript : (tree.script writer.shell config).outcome.2 = .ok text) :
    ∃ functions state, (writer.functions tree config).outcome.2 = .ok (functions, state) ∧
      ∃ definitions : List FunctionDefinition,
        text = assemble ([writer.header] ++ includedSections config ++
          definitions.map (·.render) ++ [writer.registration] ++
          modelineSection config writer.shell) ∧
        definitions.map (·.name) = state.helpers.names ++ tree.commandFunctions ∧
        (∀ name ∈ state.calls, name ∈ state.helpers.names) ∧
        (∀ function ∈ tree.functions config, function.targets ⊆ tree.commandFunctions) ∧
        tree.functionName 0 ∈ tree.commandFunctions ∧
        ((definitions.map (·.name)).Nodup ↔
          ∀ name ∈ state.calls, name ∉ tree.commandFunctions) := by
  have hwf := hbuilt.wellFormed
  have hsound : writer.Sound := by
    rcases hwriter with rfl | rfl
    · exact Bash.sound_writer tree
    · exact Zsh.sound_writer tree config
  obtain ⟨hchecked, hwritten⟩ := script_eq_ok hwriter hscript
  obtain ⟨functions, state, hsteps, hfunctions, htext⟩ := exists_functions hwritten
  have hfollows := hwf.follows_functions hchecked hsound _ (.start hsound.used [])
  rw [hsteps] at hfollows
  obtain ⟨-, hknows⟩ := hfollows
  have hstyle : state.helpers.style = .posix :=
    (congrArg (·.style) hknows.unused).trans hsound.style
  obtain ⟨helpers, hcode, hhelpers⟩ := Helpers.exists_code hstyle
  obtain ⟨commands, hcommands, hnames⟩ :=
    exists_definitions (Gives.mapM (fun function _ => hsound.gives function) _ _ _ hsteps)
  rw [map_name_functions] at hnames
  have hall : (helpers ++ commands).map (·.name) =
      state.helpers.names ++ tree.commandFunctions := by
    rw [List.map_append, hhelpers, hnames]
  refine ⟨functions, state, hfunctions, helpers ++ commands, ?_, hall, fun name hname => ?_,
    fun function hfunction => hwf.targets_subset hfunction,
    functionName_mem (hwf.mem_walk.mpr hwf.size_pos), ?_⟩
  · rw [htext, hcode, hcommands, List.map_append]
    simp only [List.append_assoc]
  · exact (hknows.calls name).mp hname
  · rw [hall, List.nodup_append]
    simp only [hknows.nodup, tree.nodup_commandFunctions, true_and, hknows.calls]
    exact ⟨fun hdistinct name hname hmem => hdistinct name hname name hmem rfl,
      fun hfree name hname _ hmem hsame => hfree name hname (hsame ▸ hmem)⟩

/-- The premises hold of a program with a subcommand and its script for zsh. -/
theorem definitions_of_script_heir :
    let tree := withHeir [] []
    let writer := Zsh.writer tree {}
    tree.Built ∧ ∃ text, (tree.script writer.shell {}).outcome.2 = .ok text ∧
      ∃ functions state, (writer.functions tree {}).outcome.2 = .ok (functions, state) ∧
        ∃ definitions : List FunctionDefinition,
          text = assemble ([writer.header] ++ includedSections {} ++
            definitions.map (·.render) ++ [writer.registration] ++
            modelineSection {} writer.shell) ∧
          definitions.map (·.name) = state.helpers.names ++ tree.commandFunctions ∧
          (∀ name ∈ state.calls, name ∈ state.helpers.names) ∧
          (∀ function ∈ tree.functions {}, function.targets ⊆ tree.commandFunctions) ∧
          tree.functionName 0 ∈ tree.commandFunctions ∧
          ((definitions.map (·.name)).Nodup ↔
            ∀ name ∈ state.calls, name ∉ tree.commandFunctions) := by
  intro tree writer
  have hbuilt : tree.Built := built_withHeir .nil .nil
  obtain ⟨text, hscript⟩ := hbuilt.wellFormed.exists_script_of_inheritedOptions_eq_nil
    (show tree.checkConditions {} = .ok () from rfl) (by decide +kernel) writer.shell
  exact ⟨hbuilt, text, hscript, definitions_of_script hbuilt (.inr rfl) hscript⟩

/-- The document of a program. -/
def programDocument : CommandDocument where
  prog := "prog"

/-- The document of a subcommand whose name is a key of a helper function. -/
def wordsDocument : CommandDocument where
  prog := "prog words"

/-- A program with a subcommand whose name is a key of a helper function. -/
def clashing : CommandTree :=
  ⟨#[{ command := { name := "prog", slot := some {} }, children := [1] },
    { command := { name := "words" }, parent := some 0 }]⟩

/-- The tree is read from the two documents. -/
theorem ofDocuments_wordsDocument :
    ofDocuments [programDocument, wordsDocument] = .ok clashing := by
  have hname : programDocument.path = ["prog"] := by decide +kernel
  rw [ofDocuments_pair hname (by decide +kernel)]
  simp only [CommandDocument.applyTo, CommandDocument.addTo, CommandDocument.orderedPositionals,
    List.foldlM_nil, programDocument, wordsDocument, List.mergeSort_nil]
  rfl

/-- The function of the subcommand has the name of the helper function that offers words. -/
theorem not_nodup_definitions_of_key : ∃ tree,
    ofDocuments [programDocument, wordsDocument] = .ok tree ∧
      (∃ text, (tree.script .bash {}).outcome.2 = .ok text) ∧
      ∃ functions state, ((Bash.writer tree).functions tree {}).outcome.2 = .ok (functions, state) ∧
        ¬ (state.helpers.names ++ tree.commandFunctions).Nodup := by
  have hbuilt : clashing.Built :=
    (Built.new "prog").step (.addSubcommand 0 "words" "" Nat.one_pos rfl)
  obtain ⟨text, hscript⟩ := hbuilt.wellFormed.exists_script_of_inheritedOptions_eq_nil
    (show clashing.checkConditions {} = .ok () from rfl) (by decide +kernel) .bash
  obtain ⟨functions, state, -, hfunctions, -⟩ :=
    exists_functions (script_eq_ok (.inl rfl) hscript).2
  have hhelpers : ((Bash.writer clashing).functions clashing {}).outcome.2.toOption.map
      (·.2.helpers.names) = some ["_prog_words"] := by decide +kernel
  have hcommands : clashing.commandFunctions = ["_prog", "_prog_words"] := by decide +kernel
  refine ⟨clashing, ofDocuments_wordsDocument, ⟨text, hscript⟩, functions, state, hfunctions, ?_⟩
  rw [hfunctions] at hhelpers
  have hnames : state.helpers.names = ["_prog_words"] := Option.some.inj hhelpers
  rw [hnames, hcommands]
  decide

end CommandTree
end ShellCompletion
