import ShellCompletion.Proofs.Follows
import ShellCompletion.Validation

/-!
# What validation accepts

Validation goes through all commands and warns on the way. It accepts a tree exactly if no
command has a fault and every condition is compiled where it is declared.
-/

namespace ShellCompletion

variable {α : Type} {tree : CommandTree} {strict : Bool} {config : Config} {id : Nat}

/-- A computation has a result if it gives one without warnings before it. -/
theorem Logged.outcome_eq_ok {action : Logged α} {value : α} :
    action.outcome.2 = .ok value ↔ ∃ warnings, action [] = .ok value warnings := by
  rw [outcome, EStateM.run]
  cases action [] with
  | ok result warnings => simp
  | error error warnings => simp

/-- A computation after a check has a result if the check succeeds and the computation has it. -/
theorem Logged.outcome_ofExcept_bind_eq_ok {check : Except Error Unit} {action : Logged α}
    {value : α} : (Logged.ofExcept check >>= fun _ => action : Logged α).outcome.2 = .ok value ↔
      check = .ok () ∧ action.outcome.2 = .ok value := by
  cases check with
  | ok _ => exact (and_iff_right rfl).symm
  | error error => exact ⟨nofun, nofun⟩

/-- Changing the result keeps the warnings. -/
theorem Logged.outcome_map {β : Type} (action : Logged α) (change : α → β) :
    (action >>= fun value => pure (change value) : Logged β).outcome =
      (action.outcome.1, action.outcome.2.map change) := by
  have hrun : (action >>= fun value => pure (change value) : Logged β) [] =
      EStateM.bind action (fun value => pure (change value)) [] := rfl
  rw [outcome, outcome, EStateM.run, EStateM.run, hrun, EStateM.bind]
  cases action [] <;> rfl

/-- The result of a computation is that of the check it follows. -/
theorem Follows.discard_outcome {action : Logged α} {check : Except Error Unit}
    (haction : Follows (fun _ => True) action check) : discard action.outcome.2 = check := by
  have hrun := haction [] trivial
  rw [Logged.outcome, EStateM.run]
  cases hresult : action [] with
  | ok value state =>
    rw [hresult] at hrun
    exact hrun.1.symm
  | error error state =>
    rw [hresult] at hrun
    exact hrun.symm

namespace CommandTree

/-- Whether a command has no fault. -/
def checkFault (tree : CommandTree) (strict : Bool) (id : Nat) : Except Error Unit :=
  match tree.commandFault? strict id with
  | some fault => .error (.validation fault)
  | none => .ok ()

/-- A command passes if it has no fault. -/
theorem checkFault_eq_ok : tree.checkFault strict id = .ok () ↔
    tree.commandFault? strict id = none := by
  rw [checkFault]
  cases tree.commandFault? strict id with
  | none => exact iff_of_true rfl rfl
  | some fault => exact iff_of_false nofun nofun

/-- Checking a command fails for its fault only. -/
theorem follows_checkCommand (tree : CommandTree) (strict : Bool) (id : Nat) :
    Follows (fun _ => True) (tree.checkCommand strict id) (tree.checkFault strict id) := by
  rw [checkCommand, checkFault]
  cases tree.commandFault? strict id with
  | none => exact Follows.all_ok (Follows.forM fun _ _ _ _ => ⟨rfl, trivial⟩)
  | some fault => exact fun _ _ => rfl

/-- The checks that need no configuration fail for the first fault of a command. -/
theorem follows_checkStructure (tree : CommandTree) (strict : Bool) :
    Follows (fun _ => True) (tree.checkStructure strict)
      (tree.ids.forM (tree.checkFault strict)) :=
  Follows.forM fun id _ => tree.follows_checkCommand strict id

/-- The checks that need no configuration accept a tree exactly if no command has a fault. -/
theorem checkStructure_eq_ok : (tree.checkStructure strict).outcome.2 = .ok () ↔
    ∀ id < tree.size, tree.commandFault? strict id = none := by
  rw [← discard_unit (tree.checkStructure strict).outcome.2,
    (tree.follows_checkStructure strict).discard_outcome]
  simp only [forM_eq_ok, checkFault_eq_ok, ids, List.mem_range]

/-- Validation fails for the first fault of a command, or for the first condition that is not
compiled. -/
theorem follows_validate (tree : CommandTree) (strict : Bool) (config : Config) :
    Follows (fun _ => True) (tree.validate strict config)
      (tree.ids.forM (tree.checkFault strict) >>= fun _ => tree.checkConditions config) :=
  (tree.follows_checkStructure strict).bind fun _ =>
    follows_ofExcept (tree.checkConditions config)

/-- Validation accepts a tree exactly if no command has a fault and every condition is
compiled in the command that declares it. -/
theorem validate_eq_ok : (tree.validate strict config).outcome.2 = .ok () ↔
    (∀ id < tree.size, tree.commandFault? strict id = none) ∧
      tree.checkConditions config = .ok () := by
  have hcheck := (tree.follows_validate strict config).discard_outcome
  rw [← discard_unit (tree.validate strict config).outcome.2, hcheck, check_bind_eq_ok]
  simp only [forM_eq_ok, checkFault_eq_ok, ids, List.mem_range]

/-! ## Commands without faults -/

end CommandTree

/-- No item is repeated if the items are different from each other and from those seen. -/
theorem firstRepeated?_eq_none {seen items : List String} :
    firstRepeated? seen items = none ↔ items.Nodup ∧ seen.Disjoint items := by
  induction items generalizing seen with
  | nil => simp [firstRepeated?]
  | cons item rest ih =>
    rw [firstRepeated?]
    by_cases hseen : item ∈ seen
    · simp [hseen]
    · simp only [List.contains_eq_mem, hseen, decide_false, Bool.false_eq_true, ↓reduceIte, ih,
        List.nodup_cons, List.disjoint_cons_left, List.disjoint_cons_right, not_false_eq_true,
        true_and]
      tauto

namespace CommandTree

/-- The names of a command without faults can be used as words. -/
theorem isCommandName_of_mem (hsound : tree.commandFault? true id = none) {name : String}
    (hname : name ∈ (tree.command id).names) : isCommandName name = true := by
  rw [commandFault?, Option.or_eq_none_iff, List.findSome?_eq_none_iff] at hsound
  have hfault := hsound.1 name hname
  rw [nameFault?] at hfault
  split at hfault
  · cases hfault
  · simpa using hfault

/-- The subcommands of a command without faults have different names. -/
theorem nodup_names_children (hsound : tree.commandFault? strict id = none) :
    ((tree.children id).flatMap fun child => (tree.command child).names).Nodup := by
  rw [commandFault?, Option.or_eq_none_iff, Option.or_eq_none_iff, siblingFault?,
    Option.map_eq_none_iff, firstRepeated?_eq_none] at hsound
  exact hsound.2.1.1

end CommandTree
end ShellCompletion
