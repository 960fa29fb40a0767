import ShellCompletion.Proofs.CommandTree.Positions
import ShellCompletion.Proofs.CommandTree.Walk

/-!
# Trees that grow

When more commands are added to a tree, those that are there keep their names, their
positional arguments and their enclosing commands, and new subcommands come last. So every path
that leads to a command goes on leading to it, and no position gets another number.
-/

namespace ShellCompletion.CommandTree

variable {tree between after : CommandTree} {id parent child : Nat} {name : String}

/-- A tree to which commands may have been added. -/
structure Extends (tree after : CommandTree) : Prop where
  /-- No command is lost. -/
  size_le : tree.size ≤ after.size
  /-- Commands keep their parents. -/
  parent_eq : ∀ id < tree.size, (after.node id).parent = (tree.node id).parent
  /-- New subcommands come last. -/
  children_prefix : ∀ id < tree.size, tree.children id <+: after.children id
  /-- Commands keep their names. -/
  names_eq : ∀ id < tree.size, (after.command id).names = (tree.command id).names
  /-- Commands keep their positional arguments. -/
  positionals_eq : ∀ id < tree.size,
    (after.command id).positionals = (tree.command id).positionals
  /-- Slots for subcommands stay. -/
  slot_isSome : ∀ id < tree.size, (tree.command id).slot.isSome →
    (after.command id).slot.isSome

namespace Extends

/-- Adding nothing extends a tree. -/
theorem refl (tree : CommandTree) : tree.Extends tree where
  size_le := Nat.le_refl _
  parent_eq _ _ := rfl
  children_prefix _ _ := List.prefix_rfl
  names_eq _ _ := rfl
  positionals_eq _ _ := rfl
  slot_isSome _ _ := id

/-- More commands may be added to a tree that was extended. -/
theorem trans (hfirst : tree.Extends between) (hsecond : between.Extends after) :
    tree.Extends after where
  size_le := Nat.le_trans hfirst.size_le hsecond.size_le
  parent_eq id hid := (hsecond.parent_eq id (Nat.lt_of_lt_of_le hid hfirst.size_le)).trans
    (hfirst.parent_eq id hid)
  children_prefix id hid := (hfirst.children_prefix id hid).trans
    (hsecond.children_prefix id (Nat.lt_of_lt_of_le hid hfirst.size_le))
  names_eq id hid := (hsecond.names_eq id (Nat.lt_of_lt_of_le hid hfirst.size_le)).trans
    (hfirst.names_eq id hid)
  positionals_eq id hid := (hsecond.positionals_eq id (Nat.lt_of_lt_of_le hid hfirst.size_le)).trans
    (hfirst.positionals_eq id hid)
  slot_isSome id hid hslot := hsecond.slot_isSome id (Nat.lt_of_lt_of_le hid hfirst.size_le)
    (hfirst.slot_isSome id hid hslot)

end Extends

/-- Attaching a subcommand extends a tree. -/
theorem extends_attach (hparent : parent < tree.size) (command : Command) :
    tree.Extends (tree.attach parent command) := by
  have hkept : ∀ other < tree.size, ∃ slot, (tree.attach parent command).command other =
      { tree.command other with slot } ∧ ((tree.command other).slot.isSome → slot.isSome) :=
    fun other hother => exists_command_attach hparent hother
  refine ⟨by simp, fun other hother => ?_, fun other hother => ?_, fun other hother => ?_,
    fun other hother => ?_, fun other hother hslot => ?_⟩
  · rw [parent_attach hparent, if_neg (Nat.ne_of_lt hother)]
  · rw [children_attach hparent]
    split
    · rename_i heq
      rw [heq]
      exact List.prefix_append _ _
    · exact List.prefix_rfl
  · obtain ⟨slot, hcommand, -⟩ := hkept other hother
    rw [hcommand]
    rfl
  · obtain ⟨slot, hcommand, -⟩ := hkept other hother
    rw [hcommand]
  · obtain ⟨slot, hcommand, hsome⟩ := hkept other hother
    rw [hcommand]
    exact hsome hslot

namespace Extends

/-! ## What commands keep -/

/-- The enclosing commands stay. -/
theorem ancestors_eq (hextends : tree.Extends after) (hid : id < tree.size) :
    after.ancestors id = tree.ancestors id := by
  induction id using Nat.strongRecOn with
  | _ id ih =>
    rw [ancestors, ancestors, hextends.parent_eq id hid]
    cases (tree.node id).parent with
    | none => rfl
    | some parent =>
      by_cases hlt : parent < id
      · simp only [if_pos hlt, ih parent hlt (Nat.lt_trans hlt hid)]
      · simp only [if_neg hlt]

/-- As many positions come before a command as before. -/
theorem slotsBefore_eq (hextends : tree.Extends after) (hwf : tree.WellFormed)
    (hid : id < tree.size) : after.slotsBefore id = tree.slotsBefore id := by
  rw [slotsBefore, slotsBefore, hextends.ancestors_eq hid]
  refine List.foldr_ext _ _ _ fun ancestor hancestor count => ?_
  have hlt : ancestor < tree.size := Nat.lt_trans (lt_of_mem_ancestors hancestor) hid
  -- An enclosing command has a subcommand on the way, so it has its slot already.
  obtain ⟨child, hchild, -⟩ := hwf.exists_child_of_mem_ancestors hancestor
  have hslot := hwf.slot_isSome ancestor (List.ne_nil_of_mem hchild)
  rw [Command.slotCount, Command.slotCount, hextends.positionals_eq ancestor hlt, hslot,
    hextends.slot_isSome ancestor hlt hslot]

/-- Commands keep their paths. -/
theorem path_eq (hextends : tree.Extends after) (hid : id < tree.size) :
    after.path id = tree.path id := by
  rw [path, path, lineage, lineage, hextends.ancestors_eq hid]
  refine List.map_congr_left fun ancestor hancestor => ?_
  have hle := le_of_mem_lineage (List.mem_reverse.mp hancestor)
  exact (List.cons.inj (hextends.names_eq ancestor (by omega))).1

/-- Positional arguments keep their numbers. -/
theorem positionalNumbers_eq (hextends : tree.Extends after) (hwf : tree.WellFormed)
    (hid : id < tree.size) : after.positionalNumbers id = tree.positionalNumbers id := by
  rw [CommandTree.positionalNumbers_eq, CommandTree.positionalNumbers_eq,
    hextends.slotsBefore_eq hwf hid, hextends.positionals_eq id hid]

/-- A name goes on leading to the subcommand that it leads to. -/
theorem findSubcommand?_eq (hextends : tree.Extends after) (hwf : tree.WellFormed)
    (hid : id < tree.size) (hfind : tree.findSubcommand? id name = some child) :
    after.findSubcommand? id name = some child := by
  obtain ⟨new, hnew⟩ := hextends.children_prefix id hid
  have hsame : ∀ other ∈ tree.children id, (after.command other).names =
      (tree.command other).names :=
    fun other hother => hextends.names_eq other (hwf.lt_size_of_mem hother)
  obtain ⟨hname, earlier, later, hchildren, hearlier⟩ :=
    List.find?_eq_some_iff_append.mp hfind
  rw [hchildren] at hsame hnew
  refine List.find?_eq_some_iff_append.mpr ⟨?_, earlier, later ++ new, ?_, ?_⟩
  · rwa [hsame child (by simp)]
  · rw [← hnew, List.append_assoc, List.cons_append]
  · intro other hother
    rw [hsame other (List.mem_append_left _ hother)]
    exact hearlier other hother

/-- A name that leads to no subcommand leads to a new one that answers to it. -/
theorem findSubcommand?_new (hextends : tree.Extends after) (hwf : tree.WellFormed)
    (hfind : tree.findSubcommand? id name = none)
    (hchildren : after.children id = tree.children id ++ [child])
    (hname : name ∈ (after.command child).names) : after.findSubcommand? id name = some child := by
  refine List.find?_eq_some_iff_append.mpr ⟨List.contains_iff_mem.mpr hname, _, [], hchildren, ?_⟩
  intro other hother
  rw [hextends.names_eq other (hwf.lt_size_of_mem hother)]
  simpa using List.find?_eq_none.mp hfind other hother

/-- Names go on leading down to the command that they lead to. -/
theorem foldlM_findSubcommand?_eq (hextends : tree.Extends after) (hwf : tree.WellFormed)
    {names : List String} {start : Nat} (hstart : start < tree.size)
    (hrun : names.foldlM tree.findSubcommand? start = some id) :
    names.foldlM after.findSubcommand? start = some id := by
  induction names generalizing start with
  | nil => exact hrun
  | cons name rest ih =>
    rw [List.foldlM_cons, Option.bind_eq_bind, Option.bind_eq_some_iff] at hrun ⊢
    obtain ⟨child, hchild, hrest⟩ := hrun
    have hlt := hwf.lt_size_of_mem (List.mem_of_find?_eq_some hchild)
    exact ⟨child, hextends.findSubcommand?_eq hwf hstart hchild, ih hlt hrest⟩

/-- A path goes on leading to the command that it leads to. -/
theorem findByPath?_eq (hextends : tree.Extends after) (hwf : tree.WellFormed)
    {path : List String} (hfind : tree.findByPath? path = some id) :
    after.findByPath? path = some id := by
  have hname : after.programName = tree.programName :=
    (List.cons.inj (hextends.names_eq 0 hwf.size_pos)).1
  cases path with
  | nil => cases hfind
  | cons program names =>
    rw [findByPath?] at hfind ⊢
    rw [hname]
    split at hfind
    · rename_i hprogram
      rw [if_pos hprogram]
      exact hextends.foldlM_findSubcommand?_eq hwf hwf.size_pos hfind
    · cases hfind

end Extends

/-- A new subcommand is enclosed by its parent and what encloses that. -/
theorem ancestors_attach (hparent : parent < tree.size) (command : Command) :
    (tree.attach parent command).ancestors tree.size = tree.lineage parent := by
  have hextends : tree.Extends (tree.attach parent command) := extends_attach hparent command
  rw [ancestors, parent_attach hparent, if_pos rfl, lineage, ← hextends.ancestors_eq hparent]
  exact if_pos hparent

/-- The path of a new subcommand goes on from that of its parent. -/
theorem path_attach (hparent : parent < tree.size) (command : Command) :
    (tree.attach parent command).path tree.size = tree.path parent ++ [command.name] := by
  let attached := tree.attach parent command
  have hextends : tree.Extends attached := extends_attach hparent command
  have hcommand : attached.command tree.size = command := by
    rw [command_attach hparent, if_pos rfl]
  have hlineage : attached.lineage tree.size = tree.size :: attached.lineage parent := by
    rw [lineage, ancestors_attach hparent, lineage, lineage, hextends.ancestors_eq hparent]
  rw [path, hlineage, List.reverse_cons, List.map_append, List.map_singleton, hcommand,
    ← hextends.path_eq hparent, path]

/-- As many positions come before a new subcommand as its parent takes up with all that is
before. -/
theorem WellFormed.slotsBefore_attach (hwf : tree.WellFormed) (hparent : parent < tree.size)
    (command : Command) :
    (tree.attach parent command).slotsBefore tree.size = tree.subcommandNumber parent := by
  let attached := tree.attach parent command
  have hextends : tree.Extends attached := extends_attach hparent command
  have hancestors : attached.ancestors tree.size = parent :: attached.ancestors parent := by
    rw [ancestors_attach hparent, hextends.ancestors_eq hparent, lineage]
  have hcount : (attached.command parent).slotCount =
      (tree.command parent).positionals.length + 1 := by
    rw [command_attach hparent, if_neg (Nat.ne_of_lt hparent), if_pos rfl]
    rfl
  rw [slotsBefore_eq hancestors, hextends.slotsBefore_eq hwf hparent, hcount, subcommandNumber,
    positionalNumber]
  omega

end ShellCompletion.CommandTree
