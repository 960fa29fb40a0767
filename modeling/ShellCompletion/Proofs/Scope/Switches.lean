import ShellCompletion.Proofs.CommandTree.WellFormed
import ShellCompletion.Scope.Basic

/-!
# Switches that commands inherit

A command may leave a switch to the enclosing commands, and the program to the configuration.
The switches of all commands can be settled in one pass that gives each command what was
settled for its parent: parents come first, so this is the value of the nearest command that
sets the switch. Once every command sets its switches to these values, the configuration does
not matter.
-/

namespace ShellCompletion

/-- The switches that a command may leave to the enclosing commands. -/
inductive CommandSwitch where
  /-- Whether unambiguous beginnings of subcommand names are accepted. -/
  | abbreviateCommands
  /-- Whether unambiguous beginnings of options are accepted. -/
  | abbreviateOptions
  /-- Whether the options of enclosing commands are shown. -/
  | inheritOptions
deriving DecidableEq

namespace CommandSwitch

/-- What a command says about the switch. -/
def setting (command : Command) : CommandSwitch → Tristate
  | abbreviateCommands => command.abbreviateCommands
  | abbreviateOptions => command.abbreviateOptions
  | inheritOptions => command.inheritOptions

/-- The value of the switch where no command sets it. -/
def default (config : Config) : CommandSwitch → Bool
  | abbreviateCommands => config.abbreviateCommands
  | abbreviateOptions => config.abbreviateOptions
  | inheritOptions => config.inheritOptions

/-- The value of the switch in a scope. -/
def value (scope : Scope) : CommandSwitch → Bool
  | abbreviateCommands => scope.abbreviateCommands
  | abbreviateOptions => scope.abbreviateOptions
  | inheritOptions => scope.inheritOptions

/-- In a scope, every switch has its value by the same rule. -/
theorem value_eq_resolve (scope : Scope) (switch : CommandSwitch) :
    switch.value scope =
      Scope.resolve (switch.setting ·) (switch.default scope.config) scope.levels := by
  cases switch <;> rfl

end CommandSwitch

/-- The nearest level that sets a switch decides on it. -/
theorem Scope.resolve_eq_findSome? (setting : Command → Tristate) (default : Bool)
    (levels : List Level) : Scope.resolve setting default levels =
      (levels.findSome? fun level => (setting level.command).value?).getD default := by
  induction levels with
  | nil => rfl
  | cons level outer ih =>
    rw [List.findSome?_cons]
    change (setting level.command).resolve (Scope.resolve setting default outer) = _
    rw [ih]
    cases setting level.command <;> rfl

/-- The command with values for all its switches. -/
def Command.withSwitches (values : CommandSwitch → Bool) (command : Command) : Command :=
  { command with
    abbreviateCommands := .set (values .abbreviateCommands)
    abbreviateOptions := .set (values .abbreviateOptions)
    inheritOptions := .set (values .inheritOptions) }

/-- The command sets each switch to its value. -/
theorem Command.setting_withSwitches (values : CommandSwitch → Bool) (command : Command)
    (switch : CommandSwitch) : switch.setting (command.withSwitches values) =
      .set (values switch) := by
  cases switch <;> rfl

namespace CommandTree

variable {tree : CommandTree} {config : Config} {id : Nat}

/-- The values of the switches in the scope of a command. -/
def switches (tree : CommandTree) (config : Config) (id : Nat) (switch : CommandSwitch) : Bool :=
  switch.value (tree.scope config id)

/-- The values that a command inherits: those of its parent if it has one, else those of the
configuration. -/
def inherited (config : Config) (valuesOf : Nat → Option (CommandSwitch → Bool)) :
    Option Nat → Option (CommandSwitch → Bool)
  | some parent => valuesOf parent
  | none => some (·.default config)

/-- The values that were settled for commands, with those for the next one. There are none if
nothing was settled for its parent. -/
def settleNext (tree : CommandTree) (config : Config) (settled : Array (CommandSwitch → Bool))
    (id : Nat) : Option (Array (CommandSwitch → Bool)) :=
  (inherited config (settled[·]?) (tree.node id).parent).map fun values =>
    settled.push fun switch => (switch.setting (tree.command id)).resolve (values switch)

/-- The values of the switches for all commands, settled in one pass. -/
def settle (tree : CommandTree) (config : Config) : Option (Array (CommandSwitch → Bool)) :=
  tree.ids.foldlM (tree.settleNext config) #[]

/-- The tree with values for all switches of every command. -/
def withSwitches (tree : CommandTree) (values : Nat → CommandSwitch → Bool) : CommandTree :=
  tree.ids.foldl (fun changed id => changed.modify id (Command.withSwitches (values id))) tree

/-! ## One pass -/

/-- The nearest command on the way up that sets a switch decides on it. -/
theorem switches_eq_findSome? (tree : CommandTree) (config : Config) (id : Nat)
    (switch : CommandSwitch) : tree.switches config id switch =
      ((tree.lineage id).findSome? fun command =>
        (switch.setting (tree.command command)).value?).getD (switch.default config) := by
  rw [switches, CommandSwitch.value_eq_resolve, Scope.resolve_eq_findSome?]
  change (((tree.lineage id).map tree.level).findSome? _).getD _ = _
  rw [List.findSome?_map]
  rfl

/-- A command sets a switch or inherits its value. -/
theorem WellFormed.exists_inherited (hwf : tree.WellFormed) (config : Config) (id : Nat) :
    ∃ values, inherited config (fun parent => some (tree.switches config parent))
        (tree.node id).parent = some values ∧
      tree.switches config id = fun switch =>
        (switch.setting (tree.command id)).resolve (values switch) := by
  cases hparent : (tree.node id).parent with
  | none =>
    refine ⟨_, rfl, funext fun switch => ?_⟩
    rw [switches_eq_findSome?, lineage, ancestors, hparent, List.findSome?_cons]
    cases switch.setting (tree.command id) <;> rfl
  | some parent =>
    refine ⟨_, rfl, funext fun switch => ?_⟩
    rw [switches_eq_findSome?, lineage, hwf.ancestors_eq hparent, List.findSome?_cons,
      switches_eq_findSome?, lineage]
    cases switch.setting (tree.command id) <;> rfl

/-- Where the pass was right so far, it is right about the next command. -/
theorem WellFormed.settleNext_eq (hwf : tree.WellFormed) (config : Config) (id : Nat) :
    tree.settleNext config ((List.range id).map (tree.switches config)).toArray id =
      some ((List.range (id + 1)).map (tree.switches config)).toArray := by
  obtain ⟨values, hvalues, hswitches⟩ := hwf.exists_inherited config id
  have hsettled : inherited config (((List.range id).map (tree.switches config)).toArray[·]?)
      (tree.node id).parent = some values := by
    rw [← hvalues]
    cases hparent : (tree.node id).parent with
    | none => rfl
    | some parent =>
      have hlt := hwf.parent_lt id parent hparent
      simp [inherited, hlt]
  rw [settleNext, hsettled, Option.map_some, ← hswitches, List.push_toArray, List.range_succ,
    List.map_append, List.map_singleton]

/-- One pass gives every command the values that the switches have in its scope. -/
theorem WellFormed.settle_eq (hwf : tree.WellFormed) (config : Config) :
    tree.settle config = some (tree.ids.map (tree.switches config)).toArray := by
  have hprefix : ∀ count, (List.range count).foldlM (tree.settleNext config) #[] =
      some ((List.range count).map (tree.switches config)).toArray := by
    intro count
    induction count with
    | zero => rfl
    | succ count ih =>
      conv_lhs => rw [List.range_succ, List.foldlM_append, ih]
      rw [Option.bind_eq_bind, Option.bind_some, List.foldlM_cons, hwf.settleNext_eq]
      rfl
  exact hprefix tree.size

/-! ## Setting every switch -/

/-- Commands of a tree get values for their switches one after the other. -/
theorem Built.withSwitches (hbuilt : tree.Built) (values : Nat → CommandSwitch → Bool) :
    (tree.withSwitches values).Built ∧ (tree.withSwitches values).size = tree.size ∧
      ∀ id < tree.size, (tree.withSwitches values).command id =
        (tree.command id).withSwitches (values id) := by
  have hprefix : ∀ count ≤ tree.size,
      let changed := (List.range count).foldl
        (fun changed id => changed.modify id (Command.withSwitches (values id))) tree
      changed.Built ∧ changed.size = tree.size ∧ ∀ id, changed.command id =
        if id < count then (tree.command id).withSwitches (values id) else tree.command id := by
    intro count hcount
    induction count with
    | zero => exact ⟨hbuilt, rfl, fun id => rfl⟩
    | succ count ih =>
      obtain ⟨hbuilt', hsize, hcommand⟩ := ih (Nat.le_of_lt hcount)
      rw [List.range_succ, List.foldl_append, List.foldl_cons, List.foldl_nil]
      have hnext := hbuilt'.step (.describe count (Command.withSwitches (values count))
        (fun _ => ⟨rfl, rfl, rfl⟩) (by omega))
      refine ⟨hnext, by simpa, fun id => ?_⟩
      rw [command_modify, hsize, hcommand, hcommand]
      by_cases heq : id = count
      · subst heq
        rw [if_pos ⟨rfl, hcount⟩, if_neg (Nat.lt_irrefl id), if_pos (Nat.lt_add_one id)]
      · have hlt : id < count + 1 ↔ id < count := by omega
        rw [if_neg fun h => heq h.1]
        simp only [hlt]
  obtain ⟨hbuilt', hsize, hcommand⟩ := hprefix tree.size (Nat.le_refl _)
  refine ⟨hbuilt', hsize, fun id hid => ?_⟩
  exact (hcommand id).trans (if_pos hid)

/-- Once every command sets its switches, they have the values that were set, whatever the
configuration. -/
theorem Built.switches_withSwitches (hbuilt : tree.Built) (values : Nat → CommandSwitch → Bool)
    (config : Config) (hid : id < tree.size) :
    (tree.withSwitches values).switches config id = values id := by
  obtain ⟨hwritten, -, hcommand⟩ := hbuilt.withSwitches values
  obtain ⟨inherited, -, hswitches⟩ := hwritten.wellFormed.exists_inherited config id
  rw [hswitches, hcommand id hid]
  funext switch
  rw [Command.setting_withSwitches]
  rfl

/-- In a tree that operations build, one pass settles the switches of all commands. Each has the
value that the nearest command sets, going up from the command itself, else that of the
configuration. If every command then sets its switches to these values, they are settled alike
under any configuration. -/
theorem settle_eq_nearest (hbuilt : tree.Built) (config : Config) :
    tree.settle config = some (tree.ids.map (tree.switches config)).toArray ∧
    (∀ id < tree.size, ∀ switch, tree.switches config id switch =
      ((tree.lineage id).findSome? fun command =>
        (switch.setting (tree.command command)).value?).getD (switch.default config)) ∧
    ∀ other, let written := tree.withSwitches (tree.switches config)
      written.settle other = tree.settle config ∧
        ∀ id < tree.size, written.switches other id = tree.switches config id := by
  have hsettle := hbuilt.wellFormed.settle_eq config
  refine ⟨hsettle, fun id _ => tree.switches_eq_findSome? config id, fun other => ?_⟩
  intro written
  obtain ⟨hwritten, hsize, -⟩ := hbuilt.withSwitches (tree.switches config)
  have hsame : ∀ id < tree.size, written.switches other id = tree.switches config id :=
    fun id hid => hbuilt.switches_withSwitches (tree.switches config) other hid
  refine ⟨?_, hsame⟩
  rw [hsettle, hwritten.wellFormed.settle_eq other, ids, ids, hsize]
  have hmap := List.map_congr_left fun id hid => hsame id (List.mem_range.mp hid)
  exact congrArg (some ·.toArray) hmap

/-- A program that accepts beginnings of options, with a subcommand that shows its options and
one below that which accepts no beginnings. -/
def layered : CommandTree :=
  ⟨#[{ command := { name := "prog", abbreviateOptions := .set true, slot := some {} },
        children := [1] },
    { command := { name := "remote", inheritOptions := .set true, slot := some {} },
      parent := some 0, children := [2] },
    { command := { name := "add", abbreviateOptions := .set false }, parent := some 1 }]⟩

/-- Operations build the tree. -/
theorem built_layered : layered.Built := by
  have hprogram := (Built.new "prog").step (.describe 0
    (fun command => { command with abbreviateOptions := .set true }) (fun _ => ⟨rfl, rfl, rfl⟩)
    (by decide))
  have hremote := (hprogram.step (.addSubcommand 0 "remote" "" (by decide) rfl)).step (.describe 1
    (fun command => { command with inheritOptions := .set true }) (fun _ => ⟨rfl, rfl, rfl⟩)
    (by decide))
  exact (hremote.step (.addSubcommand 1 "add" "" (by decide) rfl)).step (.describe 2
    (fun command => { command with abbreviateOptions := .set false }) (fun _ => ⟨rfl, rfl, rfl⟩)
    (by decide))

/-- The last command sets a switch against the program, inherits one from the command between and
leaves one to the configuration. -/
theorem settle_eq_nearest_layered :
    let config : Config := { abbreviateCommands := true }
    let written := layered.withSwitches (layered.switches config)
    layered.Built ∧ layered.switches config 2 .abbreviateOptions = false ∧
      layered.switches config 2 .inheritOptions = true ∧
      layered.switches config 2 .abbreviateCommands = true ∧
      layered.settle config = some (layered.ids.map (layered.switches config)).toArray ∧
      ∀ other, written.settle other = layered.settle config := by
  intro config written
  obtain ⟨hsettle, hnearest, hwritten⟩ := settle_eq_nearest built_layered config
  refine ⟨built_layered, ?_, ?_, ?_, hsettle, fun other => (hwritten other).1⟩
  · rw [hnearest 2 (by decide)]
    decide +kernel
  · rw [hnearest 2 (by decide)]
    decide +kernel
  · rw [hnearest 2 (by decide)]
    decide +kernel

end CommandTree
end ShellCompletion
