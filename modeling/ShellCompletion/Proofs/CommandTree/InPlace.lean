import ShellCompletion.Proofs.CommandTree.Operations

/-!
# Changes in place

An operation can be carried out on the tree itself in several steps, which stay if a later one
fails. Step by step, every operation has the result that it has as a whole.
-/

namespace ShellCompletion

/-- Steps on a tree. What was done before one of them fails stays. -/
abbrev InPlace (α : Type) := ExceptT Error (StateM CommandTree) α

namespace InPlace

open CommandTree (Operation)

variable {α β : Type} {tree : CommandTree}

/-- What steps leave of a tree, and their result. -/
def runOn (tree : CommandTree) (steps : InPlace α) : CommandTree × Except Error α :=
  (steps.run.run tree).swap

/-- The strings of an option are looked up one by one, and the option is added after that. -/
def addOption (id : Nat) (option : CommandOption) : InPlace Unit := do
  let tree ← get
  option.strings.forM fun string =>
    if ((tree.command id).findOption? string).isSome then
      throw (.invalidOption (.declaredTwice string (tree.commandPath id)))
    else pure ()
  modify (·.modify id fun command => { command with options := command.options ++ [option] })

/-- The options of a group are added one by one. -/
def addGroup (id : Nat) (group : String) (options : List CommandOption) : InPlace Unit :=
  options.forM fun option => addOption id (option.inGroup group)

/-- A slot for subcommands is added where there is none. -/
def addSlot (id : Nat) (slot : SubcommandSlot) : InPlace Unit := do
  let tree ← get
  if (tree.command id).slot.isSome then throw (.duplicateSubcommands (tree.commandPath id))
  else modify (·.modify id fun command => { command with slot := some slot })

/-- A new last command, which its parent does not hold yet. -/
def push (parent : Nat) (command : Command) : InPlace Nat :=
  modifyGet fun tree =>
    (tree.size, ⟨tree.nodes.push { command := command, parent := some parent }⟩)

/-- The slot of a command gets one more subcommand. -/
def hold (parent child : Nat) : InPlace Unit :=
  modify fun tree =>
    if (tree.command parent).slot.isSome then
      ⟨tree.nodes.modify parent fun node => { node with children := node.children ++ [child] }⟩
    else tree

/-- A new command is added and gets into the slot of its parent. -/
def attach (parent : Nat) (command : Command) : InPlace Nat := do
  let child ← push parent command
  hold parent child
  return child

/-- The enclosing command gets a slot if it has none, before it gets the new command. -/
def addSubcommand (parent : Nat) (name help : String) : InPlace Nat := do
  let tree ← get
  if (tree.findSubcommand? parent name).isSome then
    throw (.validation (.declaredTwice name (tree.commandPath parent)))
  else
    if (tree.command parent).slot.isNone then addSlot parent {} else pure ()
    attach parent { name := name, help := help }

/-- The steps of an operation. -/
def ofOperation : Operation → InPlace Unit
  | .rename name => modify (·.rename name)
  | .addOption id option => addOption id option
  | .addGroup id group options => addGroup id group options
  | .addPositional id positional => modify (·.addPositional id positional)
  | .addSlot id slot => addSlot id slot
  | .addSubcommand parent name help => do
    let _ ← addSubcommand parent name help
    return ()

/-! ## Single steps -/

/-- Steps that look at the tree see what is there. -/
theorem runOn_get_bind (tree : CommandTree) (next : CommandTree → InPlace β) :
    runOn tree (get >>= next) = runOn tree (next tree) :=
  rfl

/-- Steps after others work on what these leave, unless they fail. -/
theorem runOn_bind (tree : CommandTree) (first : InPlace α) (next : α → InPlace β) :
    runOn tree (first >>= next) = match runOn tree first with
      | (after, .ok value) => runOn after (next value)
      | (after, .error error) => (after, .error error) := by
  rw [runOn, ExceptT.run_bind, StateT.run_bind, runOn]
  generalize first.run.run tree = outcome
  obtain ⟨result, after⟩ := outcome
  cases result with
  | ok value => rfl
  | error error => rfl

/-- Looking something up for every string fails at the first one for which there is something. -/
theorem runOn_forM_check (tree : CommandTree) (strings : List String) (taken : String → Bool)
    (error : String → Error) :
    runOn tree (strings.forM fun string =>
      if taken string then throw (error string) else pure ()) =
      (tree, match strings.find? taken with
        | some string => .error (error string)
        | none => .ok ()) := by
  induction strings with
  | nil => rfl
  | cons string rest ih =>
    change runOn tree ((if taken string then throw (error string) else pure ()) >>= fun _ => _) = _
    rw [List.find?_cons, runOn_bind]
    cases taken string with
    | true => rfl
    | false => exact ih

/-! ## Steps of an operation -/

/-- An option is added as a whole. -/
theorem runOn_addOption (tree : CommandTree) (id : Nat) (option : CommandOption) :
    runOn tree (addOption id option) = (Operation.addOption id option).attempt tree := by
  rw [addOption, runOn_get_bind, runOn_bind, runOn_forM_check, Operation.attempt,
    CommandTree.addOption]
  cases option.strings.find? fun string => ((tree.command id).findOption? string).isSome with
  | none => rfl
  | some string => rfl

/-- The options of a group are added as far as they can be. -/
theorem runOn_addGroup (tree : CommandTree) (id : Nat) (group : String)
    (options : List CommandOption) :
    runOn tree (addGroup id group options) = tree.addGroup id group options := by
  induction options generalizing tree with
  | nil => rfl
  | cons option rest ih =>
    change runOn tree (addOption id (option.inGroup group) >>= fun _ => addGroup id group rest) = _
    rw [runOn_bind, runOn_addOption, Operation.attempt, CommandTree.addGroup]
    cases tree.addOption id (option.inGroup group) with
    | error error => rfl
    | ok after => exact ih after

/-- A slot is added as a whole. -/
theorem runOn_addSlot (tree : CommandTree) (id : Nat) (slot : SubcommandSlot) :
    runOn tree (addSlot id slot) = (Operation.addSlot id slot).attempt tree := by
  rw [addSlot, runOn_get_bind, Operation.attempt, CommandTree.addSlot]
  split <;> rfl

/-- A command with a slot gets a new subcommand in two steps. -/
theorem runOn_attach {parent : Nat} (hparent : parent < tree.size)
    (hslot : (tree.command parent).slot.isSome) (command : Command) :
    runOn tree (attach parent command) = (tree.attach parent command, .ok tree.size) := by
  have hplace : parent < tree.nodes.size := hparent
  have hnode : tree.node parent = tree.nodes[parent] := by
    simp [CommandTree.node, CommandTree.node?, hplace]
  let pushed : CommandTree := ⟨tree.nodes.push { command := command, parent := some parent }⟩
  have hkept : pushed.command parent = tree.command parent := by
    simp [pushed, CommandTree.command, CommandTree.node, CommandTree.node?, Array.getElem?_push,
      Nat.ne_of_lt hplace]
  have hheld : runOn tree (attach parent command) =
      (if (pushed.command parent).slot.isSome then
        ⟨pushed.nodes.modify parent fun node =>
          { node with children := node.children ++ [tree.size] }⟩
      else pushed, .ok tree.size) := rfl
  rw [hheld, hkept, if_pos hslot, CommandTree.attach]
  have hkeeps : some (tree.nodes[parent].command.slot.getD {}) =
      tree.nodes[parent].command.slot := by
    rw [CommandTree.command, hnode] at hslot
    obtain ⟨slot, hslot⟩ := Option.isSome_iff_exists.mp hslot
    rw [hslot]
    rfl
  refine congrArg (fun nodes => (CommandTree.mk nodes, Except.ok tree.size))
    (Array.ext (by simp [pushed]) ?_)
  intro place hleft hright
  simp only [pushed, Array.getElem_modify, Array.getElem_push, Array.size_modify]
  by_cases heq : parent = place
  · subst heq
    simp [hplace, hkeeps]
  · simp [heq]

/-- A new subcommand is added as a whole. -/
theorem runOn_addSubcommand {parent : Nat} (hparent : parent < tree.size) (name help : String) :
    runOn tree (addSubcommand parent name help) =
      match tree.addSubcommand parent name help with
      | .ok (after, child) => (after, .ok child)
      | .error error => (tree, .error error) := by
  rw [addSubcommand, runOn_get_bind, CommandTree.addSubcommand]
  split
  · rfl
  · cases hslot : (tree.command parent).slot with
    | some slot => exact runOn_attach hparent (by rw [hslot]; rfl) _
    | none =>
      rw [Option.isNone_none, if_pos rfl, runOn_bind, runOn_addSlot, Operation.attempt,
        CommandTree.addSlot, hslot]
      have hslotted : (tree.modify parent fun command =>
          { command with slot := some {} }).command parent =
          { tree.command parent with slot := some {} } :=
        CommandTree.command_modify_self hparent
      refine (runOn_attach (by simpa using hparent) (by rw [hslotted]; rfl) _).trans ?_
      rw [CommandTree.attach_modify_slot hparent hslot, CommandTree.size_modify]

/-- The steps of an operation leave what the operation leaves, and have its result. -/
theorem runOn_ofOperation {operation : Operation} (htarget : operation.target < tree.size) :
    runOn tree (ofOperation operation) = operation.attempt tree := by
  cases operation with
  | rename name => rfl
  | addOption id option => exact runOn_addOption tree id option
  | addGroup id group options => exact runOn_addGroup tree id group options
  | addPositional id positional => rfl
  | addSlot id slot => exact runOn_addSlot tree id slot
  | addSubcommand parent name help =>
    have hparent : parent < tree.size := htarget
    rw [ofOperation, runOn_bind, runOn_addSubcommand hparent, Operation.attempt]
    cases tree.addSubcommand parent name help with
    | error error => rfl
    | ok added => rfl

end InPlace
end ShellCompletion
