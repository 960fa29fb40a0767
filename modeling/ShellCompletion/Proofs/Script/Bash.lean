import ShellCompletion.Proofs.Script.Functions
import ShellCompletion.Script.Bash.Script

/-!
# What bash scripts fail for

The writer for bash asks for helper functions that it knows in advance only. So writing the
function of a command fails exactly if a condition in it is not compiled.
-/

namespace ShellCompletion.Bash

variable {program : String} {scope : Scope} {options : List ScopedOption}

/-- The keys of the helper functions known to every script. -/
theorem keys_available (program : String) : (helpers program).available.map (·.1) =
    ["words", "exec", "value_list", "filedir_in", "option_is", "contains"] :=
  rfl

/-- Calling a helper function never fails. -/
theorem follows_call {key : String} (hkey : key ∈ (helpers program).available.map (·.1))
    (arguments : String) : Follows (Emit.Knows (helpers program)) (call key arguments) (.ok ()) :=
  (Emit.follows_helper .bash hkey).after fun _ => follows_pure _

/-- Completing a value never fails. -/
theorem follows_action (completion : Completion) :
    Follows (Emit.Knows (helpers program)) (action completion) (.ok ()) := by
  cases completion with
  | choices _ | range _ _ _ | exec _ | valueList _ _ | signal _ | pid | process =>
    exact follows_call (by simp [keys_available]) _
  | file path | directory path =>
    cases path with
    | none => exact follows_pure _
    | some path => exact follows_call (by simp [keys_available]) _
  | none | command | hostname | user | group | service | shellVariable => exact follows_pure _

/-- Asking for a helper function that may be needed never fails. -/
theorem follows_helperFor (guard : Guard) (needs : Test → Bool) {key : String}
    (hkey : key ∈ (helpers program).available.map (·.1)) :
    Follows (Emit.Knows (helpers program)) (helperFor guard needs key) (.ok ()) := by
  rw [helperFor]
  split
  · exact Emit.follows_helper .bash hkey
  · exact follows_pure _

/-- Writing a guard never fails. -/
theorem follows_guarded (guard : Guard) (command : String) :
    Follows (Emit.Knows (helpers program)) (guarded options guard command) (.ok ()) := by
  rw [guarded]
  split
  · exact follows_pure _
  · refine Follows.after ?_ fun _ => follows_pure _
    exact (follows_helperFor guard asksValue (by simp [keys_available])).after fun _ =>
      (follows_helperFor guard asksPositional (by simp [keys_available])).after fun _ =>
        follows_pure _

/-- Completing the values of options never fails. -/
theorem follows_arguments (scope : Scope) (options : List ScopedOption) :
    Follows (Emit.Knows (helpers program)) (arguments scope options) (.ok ()) :=
  (Follows.all_ok (Follows.mapM fun option _ =>
    (follows_action option.declared.option.completion).after fun _ => follows_pure _)).after
      fun _ => follows_pure _

/-- The block of a positional argument needs its condition. -/
theorem follows_positionalBlock (numbered : Nat × Positional) :
    Follows (Emit.Knows (helpers program)) (positionalBlock scope options numbered)
      (discard (scope.whenGuard numbered.2.when)) := by
  rw [← scope.discard_positionalGuard numbered.1 numbered.2]
  exact (Emit.follows_ofExcept _).before fun guard =>
    (follows_action numbered.2.completion).after fun command => follows_guarded guard command

/-- The block of the subcommands never fails. -/
theorem follows_subcommandBlock :
    Follows (Emit.Knows (helpers program)) (subcommandBlock scope options) (.ok ()) := by
  rw [subcommandBlock]
  split
  · exact follows_pure _
  · exact (follows_call (by simp [keys_available]) _).after fun command =>
      (follows_guarded _ command).after fun _ => follows_pure _

/-- The line of an option needs its condition. -/
theorem follows_optionLine (declared : Declaration) :
    Follows (Emit.Knows (helpers program)) (optionLine scope options declared)
      (discard (scope.whenGuard declared.option.when)) := by
  rw [← scope.discard_optionGuard declared]
  exact (Emit.follows_ofExcept _).before fun guard =>
    (follows_call (by simp [keys_available]) _).after fun command => follows_guarded guard command

/-- The block of the options needs the conditions of those that are visible. -/
theorem follows_optionBlock :
    Follows (Emit.Knows (helpers program)) (optionBlock scope options) scope.checkVisible := by
  rw [optionBlock]
  split
  · rename_i hempty
    rw [Scope.checkVisible, List.isEmpty_iff.mp hempty]
    exact follows_pure _
  · exact (Follows.mapM fun declared _ => follows_optionLine declared).before fun _ =>
      follows_pure _

/-- The function of a command needs the conditions of the options that the command shows, if
those of its own arguments are compiled. -/
theorem follows_render {function : CommandFunction}
    (hchecked : function.scope.checkConditions = .ok ()) :
    Follows (Emit.Knows (helpers program)) (render function) function.scope.checkVisible := by
  have hpositionals : Follows (Emit.Knows (helpers program))
      (function.scope.numberedPositionals.mapM
        (positionalBlock function.scope (scopedOptions function.scope))) (.ok ()) := by
    refine Follows.all_ok (Follows.mapM fun numbered hnumbered => ?_)
    rw [← Scope.discard_whenGuard_of_mem_positionals hchecked hnumbered]
    exact follows_positionalBlock numbered
  rw [render]
  split
  · rename_i hempty
    rw [Scope.checkVisible_of_isEmpty hempty]
    exact follows_pure _
  · exact (follows_arguments _ _).after fun _ => hpositionals.after fun _ =>
      follows_subcommandBlock.after fun _ => follows_optionBlock.before fun _ => follows_pure _

/-- The function of a command is defined under its name. -/
theorem gives_render (function : CommandFunction) : Gives (render function) fun text =>
    ∃ body, text = FunctionStyle.posix.define function.name body := by
  rw [render]
  split
  · exact .pure ⟨_, rfl⟩
  · exact .bind fun _ => .bind fun _ => .bind fun _ => .bind fun _ => .pure ⟨_, rfl⟩

/-- The writer is sound. -/
theorem sound_writer (tree : CommandTree) : (writer tree).Sound where
  used := rfl
  style := rfl
  follows _ := follows_render
  gives := gives_render

end ShellCompletion.Bash
