import ShellCompletion.Proofs.Script.Functions
import ShellCompletion.Script.Zsh.Script

/-!
# What zsh scripts fail for

The writer for zsh knows its two helper functions in advance and makes up the others. So
writing the function of a command fails exactly if a condition in it is not compiled.
-/

namespace ShellCompletion.Zsh

variable {program : String} {scope : Scope}

/-- The keys of the helper functions known to every script. -/
theorem keys_available (program : String) : (helpers program).available.map (·.1) =
    ["helper", "exec"] :=
  rfl

/-- Describing values never fails. -/
theorem follows_describe (label : String) (items : List (String × String)) :
    Follows (Emit.Knows (helpers program)) (describe label items) (.ok ()) :=
  Emit.follows_generated _ (keys_available program) (by decide +kernel)

/-- Completing a value never fails. -/
theorem follows_action (label : String) (completion : Completion) :
    Follows (Emit.Knows (helpers program)) (action label completion) (.ok ()) := by
  cases completion with
  | choices options =>
    cases options with
    | plain values => exact follows_pure _
    | described items => exact follows_describe _ _
  | file path | directory path => cases path <;> exact follows_pure _
  | exec line =>
    exact (Emit.follows_helper .zsh (by simp [keys_available])).after fun _ => follows_pure _
  | valueList _ _ => exact Emit.follows_generated _ (keys_available program) (by decide +kernel)
  | signal _ => exact follows_describe _ _
  | service => exact (Emit.follows_warn _).after fun _ => follows_pure _
  | none | range _ _ _ | command | hostname | process | pid | user | group | shellVariable =>
    exact follows_pure _

/-- Writing an option never fails. -/
theorem follows_optionSpec (declared : Declaration) (hidden : Bool) :
    Follows (Emit.Knows (helpers program)) (optionSpec scope declared hidden) (.ok ()) := by
  have hfields : Follows (Emit.Knows (helpers program))
      (optionFields declared.option hidden) (.ok ()) := by
    rw [optionFields]
    split
    · dsimp only
      split
      · exact follows_pure _
      · exact (follows_action _ _).after fun _ => follows_pure _
    · exact follows_pure _
  exact hfields.after fun _ => follows_pure _

/-- A visible option needs its condition. -/
theorem follows_visibleSpec (helper : String) (declared : Declaration) :
    Follows (Emit.Knows (helpers program)) (visibleSpec scope helper declared)
      (discard (scope.whenGuard declared.option.when)) :=
  (follows_optionSpec declared false).after fun _ =>
    (Emit.follows_ofExcept _).before fun _ => follows_pure _

/-- A positional argument needs its condition. -/
theorem follows_positionalSpec (helper : String) (numbered : Nat × Positional) :
    Follows (Emit.Knows (helpers program)) (positionalSpec scope helper numbered)
      (discard (scope.whenGuard numbered.2.when)) :=
  (follows_action numbered.2.metavar numbered.2.completion).after fun _ =>
    (Emit.follows_ofExcept _).before fun _ => follows_pure _

/-- The slot for subcommands never fails. -/
theorem follows_slotSpec (slot : SubcommandSlot) :
    Follows (Emit.Knows (helpers program)) (slotSpec scope slot) (.ok ()) :=
  (follows_describe _ _).after fun _ => follows_pure _

/-- The specifications of a command need the conditions of the options that the command
shows, if those of its own arguments are compiled. -/
theorem follows_specs (hchecked : scope.checkConditions = .ok ()) (helper : String) :
    Follows (Emit.Knows (helpers program)) (specs scope helper) scope.checkVisible := by
  have hvisible : Follows (Emit.Knows (helpers program))
      (scope.visibleOptions.mapM (visibleSpec scope helper)) scope.checkVisible :=
    Follows.mapM fun declared _ => follows_visibleSpec helper declared
  have hhidden : Follows (Emit.Knows (helpers program))
      ((hidden scope).mapM (optionSpec scope · true)) (.ok ()) :=
    Follows.all_ok (Follows.mapM fun declared _ => follows_optionSpec declared true)
  have hpositionals : Follows (Emit.Knows (helpers program))
      (scope.numberedPositionals.mapM (positionalSpec scope helper)) (.ok ()) := by
    refine Follows.all_ok (Follows.mapM fun numbered hnumbered => ?_)
    rw [← Scope.discard_whenGuard_of_mem_positionals hchecked hnumbered]
    exact follows_positionalSpec helper numbered
  have hslot : Follows (Emit.Knows (helpers program))
      (scope.own.command.slot.toList.mapM (slotSpec scope)) (.ok ()) :=
    Follows.all_ok (Follows.mapM fun slot _ => follows_slotSpec slot)
  exact hvisible.before fun _ => hhidden.after fun _ => hpositionals.after fun _ =>
    hslot.after fun _ => follows_pure _

/-- The function of a command needs the conditions of the options that the command shows, if
those of its own arguments are compiled. -/
theorem follows_render {function : CommandFunction}
    (hchecked : function.scope.checkConditions = .ok ()) :
    Follows (Emit.Knows (helpers program)) (render function) function.scope.checkVisible := by
  rw [render]
  split
  · rename_i hempty
    rw [Scope.checkVisible_of_isEmpty hempty]
    exact follows_pure _
  · exact (Emit.follows_helper .zsh (by simp [keys_available])).after fun helper =>
      (follows_specs hchecked helper).before fun _ => follows_pure _

/-- The function of a command is defined under its name. -/
theorem gives_render (function : CommandFunction) : Gives (render function) fun text =>
    ∃ body, text = FunctionStyle.posix.define function.name body := by
  rw [render]
  split
  · exact .pure ⟨_, rfl⟩
  · exact .bind fun _ => .bind fun _ => .pure ⟨_, rfl⟩

/-- The writer is sound. -/
theorem sound_writer (tree : CommandTree) (config : Config) : (writer tree config).Sound where
  used := rfl
  style := rfl
  follows _ := follows_render
  gives := gives_render

end ShellCompletion.Zsh
