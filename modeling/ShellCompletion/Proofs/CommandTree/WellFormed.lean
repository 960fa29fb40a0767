import ShellCompletion.Proofs.Attempts
import ShellCompletion.Proofs.CommandTree.Nodes

/-!
# Well-formed trees

A tree starts as a program and grows by one operation after the other. Every tree that is
built in this way is well-formed: parents and subcommands agree, parents come first, and
no two options of a command share an option string.
-/

namespace ShellCompletion

/-- A change of the fields that are open to everyone: the names, the description and the
switches, but not what was added to the command. -/
def Command.IsDescription (change : Command → Command) : Prop :=
  ∀ command, (change command).options = command.options ∧
    (change command).positionals = command.positionals ∧ (change command).slot = command.slot

namespace CommandTree

/-- One operation on a tree, applied to a command that the tree has given out. -/
inductive Step (tree : CommandTree) : CommandTree → Prop
  /-- A command is renamed, described, or has a switch set. -/
  | describe (id : Nat) (change : Command → Command) (hchange : Command.IsDescription change)
      (hid : id < tree.size) : Step tree (tree.modify id change)
  /-- A command gets one more option. -/
  | addOption {after : CommandTree} (id : Nat) (option : CommandOption) (hid : id < tree.size)
      (hadd : tree.addOption id option = .ok after) : Step tree after
  /-- A command gets one more positional argument. -/
  | addPositional (id : Nat) (positional : Positional) (hid : id < tree.size) :
      Step tree (tree.addPositional id positional)
  /-- A command gets a slot for subcommands. -/
  | addSlot {after : CommandTree} (id : Nat) (slot : SubcommandSlot) (hid : id < tree.size)
      (hadd : tree.addSlot id slot = .ok after) : Step tree after
  /-- A command gets one more subcommand. -/
  | addSubcommand {after : CommandTree} {id : Nat} (parent : Nat) (name help : String)
      (hparent : parent < tree.size)
      (hadd : tree.addSubcommand parent name help = .ok (after, id)) : Step tree after

/-- The trees that operations build. -/
inductive Built : CommandTree → Prop
  /-- A program without subcommands. -/
  | new (program : String) : Built (new program)
  /-- A tree after one more operation. -/
  | step {tree after : CommandTree} (hbuilt : Built tree) (hstep : Step tree after) :
      Built after

/-- What holds of every tree that operations build. -/
structure WellFormed (tree : CommandTree) : Prop where
  /-- There is a program. -/
  size_pos : 0 < tree.size
  /-- The program has no parent. -/
  parent_root : (tree.node 0).parent = none
  /-- Every other command has one. -/
  parent_ne_none : ∀ id, 0 < id → id < tree.size → (tree.node id).parent ≠ none
  /-- Parents come before their subcommands. -/
  parent_lt : ∀ id parent, (tree.node id).parent = some parent → parent < id
  /-- The subcommands of a command are those whose parent it is. -/
  mem_children : ∀ parent id, id ∈ tree.children parent ↔ (tree.node id).parent = some parent
  /-- Subcommands stand in the order in which they were added. -/
  ascending : ∀ id, (tree.children id).Pairwise (· < ·)
  /-- A command with subcommands has a slot for them. -/
  slot_isSome : ∀ id, tree.children id ≠ [] → (tree.command id).slot.isSome
  /-- No two options of a command share an option string. -/
  disjoint : ∀ id, (tree.command id).options.Pairwise fun a b => a.strings.Disjoint b.strings

variable {tree after : CommandTree} {id parent : Nat}

namespace WellFormed

/-- Every command but the program is a subcommand of an earlier one. -/
theorem exists_parent (hwf : tree.WellFormed) (hpos : 0 < id) (hid : id < tree.size) :
    ∃ parent, parent < id ∧ (tree.node id).parent = some parent := by
  obtain ⟨parent, hparent⟩ := Option.ne_none_iff_exists'.mp (hwf.parent_ne_none id hpos hid)
  exact ⟨parent, hwf.parent_lt id parent hparent, hparent⟩

/-- Subcommands come after the command that holds them. -/
theorem lt_of_mem_children (hwf : tree.WellFormed) (hchild : id ∈ tree.children parent) :
    parent < id :=
  hwf.parent_lt id parent ((hwf.mem_children parent id).mp hchild)

/-- Subcommands have numbers that were given out. -/
theorem lt_size_of_mem (hwf : tree.WellFormed) (hchild : id ∈ tree.children parent) :
    id < tree.size :=
  lt_size_of_parent ((hwf.mem_children parent id).mp hchild)

/-- No subcommand is held twice. -/
theorem nodup_children (hwf : tree.WellFormed) (id : Nat) : (tree.children id).Nodup :=
  (hwf.ascending id).imp fun hlt => Nat.ne_of_lt hlt

/-- The enclosing commands of a subcommand are its parent and those of its parent. -/
theorem ancestors_eq (hwf : tree.WellFormed) (hparent : (tree.node id).parent = some parent) :
    tree.ancestors id = parent :: tree.ancestors parent := by
  rw [ancestors, hparent]
  exact if_pos (hwf.parent_lt id parent hparent)

/-- The program has no enclosing commands. -/
theorem ancestors_root (hwf : tree.WellFormed) : tree.ancestors 0 = [] := by
  rw [ancestors, hwf.parent_root]

/-- No positions come before those of the program. -/
theorem slotsBefore_root (hwf : tree.WellFormed) : tree.slotsBefore 0 = 0 := by
  rw [slotsBefore, hwf.ancestors_root, List.foldr_nil]

/-- The tree of a program is well-formed. -/
theorem new (program : String) : (new program).WellFormed := by
  have hnode := parent_and_children_new program
  refine ⟨Nat.one_pos, rfl, ?_, ?_, ?_, ?_, ?_, ?_⟩
  · intro id hpos hid
    rw [size_new] at hid
    omega
  · intro id parent hparent
    rw [(hnode id).1] at hparent
    cases hparent
  · intro parent id
    rw [(hnode id).1, (hnode parent).2]
    simp
  · intro id
    rw [(hnode id).2]
    exact List.Pairwise.nil
  · intro id hchildren
    exact absurd (hnode id).2 hchildren
  · exact forall_command_new (fun command => command.options.Pairwise
      fun a b => a.strings.Disjoint b.strings) List.Pairwise.nil List.Pairwise.nil

/-- Replacing a declaration keeps a tree well-formed if the slot stays and the options
are told apart. -/
theorem modify (hwf : tree.WellFormed) {change : Command → Command}
    (hslot : (tree.command id).slot.isSome → (change (tree.command id)).slot.isSome)
    (hdisjoint : (change (tree.command id)).options.Pairwise
      fun a b => a.strings.Disjoint b.strings) :
    (tree.modify id change).WellFormed := by
  refine ⟨by simpa using hwf.size_pos, by simpa using hwf.parent_root,
    by simpa using hwf.parent_ne_none, by simpa using hwf.parent_lt,
    by simpa using hwf.mem_children, by simpa using hwf.ascending, ?_, ?_⟩
  · intro other hchildren
    rw [children_modify] at hchildren
    have hkept := hwf.slot_isSome other hchildren
    by_cases hne : other = id
    · subst hne
      have hsize : other < tree.size := by
        by_contra hsize
        exact hchildren (children_of_size_le (Nat.le_of_not_lt hsize))
      rw [command_modify_self hsize]
      exact hslot hkept
    · rwa [command_modify_of_ne hne]
  · exact forall_command_modify (fun command => command.options.Pairwise
      fun a b => a.strings.Disjoint b.strings) hdisjoint hwf.disjoint

/-- Attaching a subcommand without options keeps a tree well-formed. -/
theorem attach (hwf : tree.WellFormed) {command : Command} (hparent : parent < tree.size)
    (hoptions : command.options = []) : (tree.attach parent command).WellFormed := by
  refine ⟨by simp, ?_, ?_, ?_, ?_, ?_, ?_, ?_⟩
  · rw [parent_attach hparent, if_neg (Nat.ne_of_lt hwf.size_pos), hwf.parent_root]
  · intro id hpos hid
    rw [size_attach] at hid
    rw [parent_attach hparent]
    split
    · exact Option.some_ne_none _
    · exact hwf.parent_ne_none id hpos (by omega)
  · intro id other hother
    rw [parent_attach hparent] at hother
    split at hother
    · cases hother
      omega
    · exact hwf.parent_lt id other hother
  · intro holder id
    rw [parent_attach hparent, children_attach hparent]
    by_cases heq : holder = parent
    · rw [if_pos heq, List.mem_append, List.mem_singleton, hwf.mem_children, heq]
      by_cases hsize : id = tree.size
      · simp [hsize]
      · simp [hsize]
    · rw [if_neg heq, hwf.mem_children]
      by_cases hsize : id = tree.size
      · simp [hsize, node_of_size_le, Ne.symm heq, show (default : Node).parent = none from rfl]
      · simp [hsize]
  · intro id
    rw [children_attach hparent]
    split
    · refine List.pairwise_append.mpr ⟨hwf.ascending parent, List.pairwise_singleton _ _, ?_⟩
      intro child hchild last hlast
      rw [List.mem_singleton.mp hlast]
      exact hwf.lt_size_of_mem hchild
    · exact hwf.ascending id
  · intro id hchildren
    rw [children_attach hparent] at hchildren
    rw [command_attach hparent]
    by_cases heq : id = parent
    · rw [if_neg (by omega), if_pos heq]
      rfl
    · rw [if_neg heq] at hchildren
      have hsize : id ≠ tree.size := by
        rintro rfl
        exact hchildren (children_of_size_le (Nat.le_refl _))
      rw [if_neg hsize, if_neg heq]
      exact hwf.slot_isSome id hchildren
  · refine forall_command_attach (fun command => command.options.Pairwise
      fun a b => a.strings.Disjoint b.strings) hparent ?_ (hwf.disjoint parent) hwf.disjoint
    rw [hoptions]
    exact List.Pairwise.nil

end WellFormed

/-- An option can be added if none of its strings belongs to an option of the command. -/
theorem addOption_eq_ok {option : CommandOption} :
    tree.addOption id option = .ok after ↔
      (∀ other ∈ (tree.command id).options, other.strings.Disjoint option.strings) ∧
        after = tree.modify id fun command =>
          { command with options := command.options ++ [option] } := by
  unfold addOption
  split
  · rename_i string hfind
    obtain ⟨hmem, hfound⟩ : string ∈ option.strings ∧
        ((tree.command id).findOption? string).isSome := by
      exact ⟨List.mem_of_find?_eq_some hfind, by simpa using List.find?_some hfind⟩
    rw [Command.findOption?, List.find?_isSome] at hfound
    obtain ⟨other, hother, hanswers⟩ := hfound
    simp only [reduceCtorEq, false_iff, not_and]
    intro hdisjoint
    exact absurd hmem (hdisjoint other hother (by simpa [CommandOption.answersTo] using hanswers))
  · rename_i hfind
    have hdisjoint : ∀ other ∈ (tree.command id).options,
        other.strings.Disjoint option.strings := by
      intro other hother string hstring hmem
      have hnone := List.find?_eq_none.mp hfind string hmem
      refine hnone ?_
      rw [Command.findOption?, List.find?_isSome]
      exact ⟨other, hother, by simpa [CommandOption.answersTo] using hstring⟩
    rw [Except.ok.injEq, eq_comm]
    exact ⟨fun heq => ⟨hdisjoint, heq⟩, fun h => h.2⟩

/-- A slot can be added where there is none. -/
theorem addSlot_eq_ok {slot : SubcommandSlot} :
    tree.addSlot id slot = .ok after ↔ (tree.command id).slot = none ∧
      after = tree.modify id fun command => { command with slot := some slot } := by
  unfold addSlot
  cases (tree.command id).slot with
  | none => simp [eq_comm]
  | some old => simp

/-- A subcommand can be added if none answers to its name; it gets the next number. -/
theorem addSubcommand_eq_ok {name help : String} :
    tree.addSubcommand parent name help = .ok (after, id) ↔
      tree.findSubcommand? parent name = none ∧
        after = tree.attach parent { name := name, help := help } ∧ id = tree.size := by
  unfold addSubcommand
  cases tree.findSubcommand? parent name with
  | none => simp [eq_comm]
  | some old => simp

/-- Every operation keeps a tree well-formed. -/
theorem Step.wellFormed (hstep : Step tree after) (hwf : tree.WellFormed) : after.WellFormed := by
  cases hstep with
  | describe id change hchange hid =>
    obtain ⟨hoptions, -, hslot⟩ := hchange (tree.command id)
    refine hwf.modify (fun h => by rwa [hslot]) ?_
    rw [hoptions]
    exact hwf.disjoint id
  | addOption id option hid hadd =>
    obtain ⟨hdisjoint, rfl⟩ := addOption_eq_ok.mp hadd
    refine hwf.modify (fun h => h) ?_
    refine List.pairwise_append.mpr ⟨hwf.disjoint id, List.pairwise_singleton _ _, ?_⟩
    intro other hother last hlast
    rw [List.mem_singleton.mp hlast]
    exact hdisjoint other hother
  | addPositional id positional hid => exact hwf.modify (fun h => h) (hwf.disjoint id)
  | addSlot id slot hid hadd =>
    obtain ⟨-, rfl⟩ := addSlot_eq_ok.mp hadd
    exact hwf.modify (fun _ => rfl) (hwf.disjoint id)
  | addSubcommand parent name help hparent hadd =>
    obtain ⟨-, rfl, -⟩ := addSubcommand_eq_ok.mp hadd
    exact hwf.attach hparent rfl

/-- Every tree that operations build is well-formed. -/
theorem Built.wellFormed (hbuilt : Built tree) : tree.WellFormed := by
  induction hbuilt with
  | new program => exact WellFormed.new program
  | step _ hstep ih => exact hstep.wellFormed ih

/-- Options are added one after the other if they are told apart from those that are there and
from one another. -/
theorem foldlM_addOption_eq_ok (hid : id < tree.size) {options : List CommandOption}
    (hdisjoint : (tree.command id).options.Pairwise fun a b => a.strings.Disjoint b.strings) :
    options.foldlM (fun tree option => tree.addOption id option) tree = .ok after ↔
      (((tree.command id).options ++ options).Pairwise fun a b => a.strings.Disjoint b.strings) ∧
        after = tree.modify id fun command =>
          { command with options := command.options ++ options } := by
  induction options generalizing tree with
  | nil =>
    rw [modify_eq_self (by simp), List.append_nil, List.foldlM_nil, eq_comm (a := after)]
    exact ⟨fun hrun => ⟨hdisjoint, Except.ok.inj hrun⟩, fun h => congrArg Except.ok h.2⟩
  | cons option rest ih =>
    rw [List.foldlM_cons, bind_eq_ok]
    -- After the first option, the command has that option as well.
    have hnext (hapart : ∀ other ∈ (tree.command id).options,
        other.strings.Disjoint option.strings) :
        rest.foldlM (fun tree option => tree.addOption id option) (tree.modify id fun command =>
            { command with options := command.options ++ [option] }) = .ok after ↔
          (((tree.command id).options ++ option :: rest).Pairwise
            fun a b => a.strings.Disjoint b.strings) ∧
          after = tree.modify id fun command =>
            { command with options := command.options ++ option :: rest } := by
      have hpairs := List.pairwise_append.mpr ⟨hdisjoint, List.pairwise_singleton _ option,
        fun other hother last hlast => List.mem_singleton.mp hlast ▸ hapart other hother⟩
      rw [ih (by simpa using hid) (by rwa [command_modify_self hid]), command_modify_self hid]
      simp only [modify_modify, List.append_assoc, List.singleton_append, Function.comp_def]
    constructor
    · rintro ⟨next, hadd, hrest⟩
      obtain ⟨hapart, rfl⟩ := addOption_eq_ok.mp hadd
      exact (hnext hapart).mp hrest
    · rintro ⟨hall, rfl⟩
      have hapart : ∀ other ∈ (tree.command id).options,
          other.strings.Disjoint option.strings := by
        intro other hother
        exact (List.pairwise_append.mp hall).2.2 other hother option List.mem_cons_self
      exact ⟨_, addOption_eq_ok.mpr ⟨hapart, rfl⟩, (hnext hapart).mpr ⟨hall, rfl⟩⟩

/-- A tree to which options are added that are told apart is built by operations. -/
theorem Built.addOptions (hbuilt : Built tree) (hid : id < tree.size) {options : List CommandOption}
    (hdisjoint : ((tree.command id).options ++ options).Pairwise
      fun a b => a.strings.Disjoint b.strings) :
    Built (tree.modify id fun command =>
      { command with options := command.options ++ options }) := by
  have hkept : ∀ option ∈ options, ∀ before after : CommandTree,
      before.Built ∧ id < before.size → before.addOption id option = .ok after →
        after.Built ∧ id < after.size := by
    rintro option - before after ⟨hbefore, hlt⟩ hadd
    refine ⟨hbefore.step (.addOption id option hlt hadd), ?_⟩
    rwa [(addOption_eq_ok.mp hadd).2, size_modify]
  have hrun := (foldlM_addOption_eq_ok hid (List.pairwise_append.mp hdisjoint).1).mpr
    ⟨hdisjoint, rfl⟩
  exact (foldlM_invariant (fun tree => tree.Built ∧ id < tree.size) hkept ⟨hbuilt, hid⟩ hrun).1

end CommandTree
end ShellCompletion
