import ShellCompletion.Proofs.Scope.Guards
import ShellCompletion.Proofs.Script.Emit
import ShellCompletion.Script.Fish.Script

/-!
# What fish scripts fail for

The writer for fish knows its two helper functions in advance and makes up the others. So
writing the section of a command fails exactly if a condition in it is not compiled.
-/

namespace ShellCompletion.Fish

variable {program : String} {scope : Scope}

/-- The keys of the helper functions known to every script. -/
theorem keys_available (program : String) : (helpers program).available.map (·.1) =
    ["helper", "filedir"] :=
  rfl

/-- Completing paths below a directory never fails. -/
theorem follows_filedir (path options : String) :
    Follows (Emit.Knows (helpers program)) (filedir path options) (.ok ()) :=
  (Emit.follows_helper .fish (by simp [keys_available])).after fun _ => follows_pure _

/-- Describing values never fails. -/
theorem follows_describe (items : List (String × String)) :
    Follows (Emit.Knows (helpers program)) (describe items) (.ok ()) :=
  Emit.follows_generated _ (keys_available program) (by decide +kernel)

/-- Completing a value never fails. -/
theorem follows_completion (completion : Completion) :
    Follows (Emit.Knows (helpers program)) (arguments completion) (.ok ()) := by
  cases completion with
  | choices options =>
    cases options with
    | plain values => exact follows_pure _
    | described items => exact (follows_describe items).after fun _ => follows_pure _
  | file path | directory path =>
    cases path with
    | none => exact follows_pure _
    | some path => exact follows_filedir _ _
  | valueList _ _ =>
    exact (Emit.follows_generated _ (keys_available program) (by decide +kernel)).after fun _ =>
      follows_pure _
  | signal _ => exact (follows_describe _).after fun _ => follows_pure _
  | none | range _ _ _ | exec _ | command | hostname | process | pid | user | group | service
    | shellVariable => exact follows_pure _

/-- Declaring an option never fails. -/
theorem follows_optionArguments (option : CommandOption) :
    Follows (Emit.Knows (helpers program)) (optionArguments option) (.ok ()) := by
  rw [optionArguments]
  cases option.arity with
  | absent => exact follows_pure _
  | required | optional =>
    exact (follows_completion option.completion).after fun _ => follows_pure _

/-- Writing a guard never fails. -/
theorem follows_condition (draft : Draft) (guard : Guard) :
    Follows (Emit.Knows (helpers program)) (draft.condition scope guard) (.ok ()) := by
  have hcall : Follows (Emit.Knows (helpers program)) (helperCall scope) (.ok ()) :=
    (Emit.follows_helper .fish (by simp [keys_available])).after fun _ => follows_pure _
  have hcode : Follows (Emit.Knows (helpers program)) (guardCode scope guard) (.ok ()) := by
    rw [guardCode]
    split
    · exact hcall.after fun _ => follows_pure _
    · exact follows_pure _
  rw [Draft.condition]
  split
  · exact follows_pure _
  · exact hcode.after fun _ => follows_pure _

/-- The line of an option needs its condition. -/
theorem follows_addOption (draft : Draft) (declared : Declaration) :
    Follows (Emit.Knows (helpers program)) (addOption scope draft declared)
      (discard (scope.whenGuard declared.option.when)) := by
  rw [← scope.discard_optionGuard declared]
  exact (Emit.follows_ofExcept _).before fun offered => (follows_condition draft _).after fun _ =>
    (follows_optionArguments declared.option).after fun _ => follows_pure _

/-- The line of a positional argument never fails if its condition is compiled. -/
theorem follows_addPositional (draft : Draft) {numbered : Nat × Positional}
    (hcompiled : discard (scope.whenGuard numbered.2.when) = .ok ()) :
    Follows (Emit.Knows (helpers program)) (addPositional scope draft numbered) (.ok ()) := by
  rw [addPositional]
  split
  · exact follows_pure _
  · rw [← hcompiled]
    exact (Emit.follows_ofExcept _).before fun shown => (follows_condition draft _).after fun _ =>
      (follows_completion numbered.2.completion).after fun _ => follows_pure _

/-- The lines of the subcommands never fail. -/
theorem follows_addSubcommands (draft : Draft) :
    Follows (Emit.Knows (helpers program)) (addSubcommands scope draft) (.ok ()) := by
  rw [addSubcommands]
  split
  · exact follows_pure _
  · exact (follows_condition draft _).after fun _ => follows_pure _

/-- The section of a command needs the conditions of the options that the command shows, if
those of its own arguments are compiled. -/
theorem follows_commandSection (hchecked : scope.checkConditions = .ok ())
    (shared : List String) :
    Follows (Emit.Knows (helpers program)) (commandSection scope shared) scope.checkVisible := by
  have hoptions : ∀ draft, Follows (Emit.Knows (helpers program))
      (scope.visibleOptions.foldlM (addOption scope) draft) scope.checkVisible :=
    Follows.foldlM fun declared _ draft => follows_addOption draft declared
  have hpositionals : ∀ draft, Follows (Emit.Knows (helpers program))
      (scope.numberedPositionals.foldlM (addPositional scope) draft) (.ok ()) := fun draft =>
    Follows.all_ok (Follows.foldlM (fun _ hnumbered draft => follows_addPositional draft
      (Scope.discard_whenGuard_of_mem_positionals hchecked hnumbered)) draft)
  exact (hoptions _).before fun draft => (hpositionals draft).after fun draft =>
    (follows_addSubcommands draft).after fun _ => follows_pure _

/-- The sections of several commands need the conditions of the options that these commands
show, if those of their own arguments are compiled. -/
theorem follows_sections {scopes : List Scope}
    (hchecked : ∀ scope ∈ scopes, scope.checkConditions = .ok ()) (shared : List String) :
    Follows (Emit.Knows (helpers program)) (sections shared scopes)
      (scopes.forM Scope.checkVisible) := by
  induction scopes generalizing shared with
  | nil => exact follows_pure _
  | cons scope rest ih =>
    obtain ⟨hscope, hrest⟩ := List.forall_mem_cons.mp hchecked
    change Follows _ _ (scope.checkVisible >>= fun _ => rest.forM Scope.checkVisible)
    rw [sections]
    split
    · rename_i hempty
      rw [Scope.checkVisible_of_isEmpty hempty]
      exact ih hrest shared
    · exact (follows_commandSection hscope shared).bind fun _ =>
        (ih hrest _).before fun _ => follows_pure _

end ShellCompletion.Fish
