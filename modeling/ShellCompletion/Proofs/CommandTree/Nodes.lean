import Mathlib.Data.List.Nodup
import ShellCompletion.CommandTree.Basic

/-!
# Commands after a change of the tree

A tree is changed in two ways: the declaration of one command is replaced, or a new last
subcommand is attached. These lemmas say what each command is afterwards.
-/

namespace ShellCompletion.CommandTree

variable {tree : CommandTree} {id other parent : Nat} {change : Command → Command}
  {command : Command}

/-- A number that was not given out stands for no command. -/
theorem node_of_size_le (hid : tree.size ≤ id) : tree.node id = default := by
  simp [node, node?, Array.getElem?_eq_none hid]

/-- A number that was not given out has no subcommands. -/
theorem children_of_size_le (hid : tree.size ≤ id) : tree.children id = [] := by
  rw [children, node_of_size_le hid]
  rfl

/-- Only numbers that were given out have a parent. -/
theorem lt_size_of_parent (hparent : (tree.node id).parent = some parent) : id < tree.size := by
  by_contra hid
  rw [node_of_size_le (Nat.le_of_not_lt hid)] at hparent
  cases hparent

/-- Trees of one size whose commands are the same one by one are equal. -/
theorem eq_of_node {first second : CommandTree} (hsize : first.size = second.size)
    (hnode : ∀ id < first.size, first.node id = second.node id) : first = second := by
  obtain ⟨nodes⟩ := first
  obtain ⟨others⟩ := second
  congr 1
  refine Array.ext hsize fun id hfirst hsecond => ?_
  have h := hnode id hfirst
  simpa [node, node?, Array.getElem?_eq_getElem hfirst, Array.getElem?_eq_getElem hsecond] using h

@[simp] theorem size_new (program : String) : (new program).size = 1 :=
  rfl

@[simp] theorem node_new (program : String) :
    (new program).node 0 = { command := { name := program } } :=
  rfl

/-- No number has a parent or subcommands in the tree of a program. -/
theorem parent_and_children_new (program : String) (id : Nat) :
    ((new program).node id).parent = none ∧ (new program).children id = [] := by
  rcases Nat.eq_zero_or_pos id with rfl | hpos
  · exact ⟨rfl, rfl⟩
  · have hsize : (new program).size ≤ id := hpos
    exact ⟨by rw [node_of_size_le hsize]; rfl, children_of_size_le hsize⟩

/-- What holds of a program without declarations, and where there is no command, holds of every
command in the tree of a program. -/
theorem forall_command_new {program : String} (property : Command → Prop)
    (hprogram : property { name := program }) (hnone : property (default : Node).command)
    (id : Nat) : property ((new program).command id) := by
  rcases Nat.eq_zero_or_pos id with rfl | hpos
  · exact hprogram
  · have hsize : (new program).size ≤ id := hpos
    rwa [command, node_of_size_le hsize]

/-! ## Replacing a declaration -/

@[simp] theorem size_modify : (tree.modify id change).size = tree.size := by
  simp [size, modify]

/-- The command whose declaration is replaced, in its place. -/
theorem node_modify_self (hid : id < tree.size) : (tree.modify id change).node id =
    { tree.node id with command := change (tree.command id) } := by
  have hid' : id < tree.nodes.size := hid
  simp [node, node?, modify, command, Array.getElem?_modify, Array.getElem?_eq_getElem hid']

/-- The other commands stay what they are. -/
theorem node_modify_of_ne (hne : other ≠ id) :
    (tree.modify id change).node other = tree.node other := by
  simp [node, node?, modify, Array.getElem?_modify, hne.symm]

@[simp] theorem parent_modify :
    ((tree.modify id change).node other).parent = (tree.node other).parent := by
  by_cases hne : other = id
  · subst hne
    by_cases hid : other < tree.size
    · rw [node_modify_self hid]
    · rw [node_of_size_le (by simpa using hid), node_of_size_le (Nat.le_of_not_lt hid)]
  · rw [node_modify_of_ne hne]

@[simp] theorem children_modify :
    (tree.modify id change).children other = tree.children other := by
  by_cases hne : other = id
  · subst hne
    by_cases hid : other < tree.size
    · rw [children, node_modify_self hid, children]
    · rw [children_of_size_le (by simpa using hid), children_of_size_le (Nat.le_of_not_lt hid)]
  · rw [children, node_modify_of_ne hne, children]

@[simp] theorem command_modify_self (hid : id < tree.size) :
    (tree.modify id change).command id = change (tree.command id) := by
  rw [command, node_modify_self hid]

@[simp] theorem command_modify_of_ne (hne : other ≠ id) :
    (tree.modify id change).command other = tree.command other := by
  rw [command, node_modify_of_ne hne, command]

/-- What every command declares after one declaration was replaced. -/
theorem command_modify (other : Nat) : (tree.modify id change).command other =
    if other = id ∧ id < tree.size then change (tree.command id) else tree.command other := by
  by_cases hne : other = id
  · subst hne
    by_cases hid : other < tree.size
    · rw [command_modify_self hid, if_pos ⟨rfl, hid⟩]
    · have hsize : tree.size ≤ other := Nat.le_of_not_lt hid
      rw [if_neg fun h => hid h.2, command, node_of_size_le (by simpa using hsize), command,
        node_of_size_le hsize]
  · rw [command_modify_of_ne hne, if_neg fun h => hne h.1]

/-- What holds of the new declaration and of all others holds of every declaration. -/
theorem forall_command_modify (property : Command → Prop)
    (hchange : property (change (tree.command id)))
    (hothers : ∀ other, property (tree.command other)) (other : Nat) :
    property ((tree.modify id change).command other) := by
  rw [command_modify]
  split
  · exact hchange
  · exact hothers other

/-- Only the declaration of the one command matters to what replaces it. -/
theorem modify_congr {first second : Command → Command}
    (hsame : first (tree.command id) = second (tree.command id)) :
    tree.modify id first = tree.modify id second := by
  refine eq_of_node (by simp) fun other hother => ?_
  rw [size_modify] at hother
  by_cases hne : other = id
  · subst hne
    rw [node_modify_self hother, node_modify_self hother, hsame]
  · rw [node_modify_of_ne hne, node_modify_of_ne hne]

/-- Replacing a declaration by itself changes nothing. -/
theorem modify_eq_self (hsame : change (tree.command id) = tree.command id) :
    tree.modify id change = tree := by
  refine eq_of_node (by simp) fun other hother => ?_
  rw [size_modify] at hother
  by_cases hne : other = id
  · subst hne
    rw [node_modify_self hother, hsame, command]
  · rw [node_modify_of_ne hne]

/-- Replacing a declaration twice is replacing it once. -/
theorem modify_modify {next : Command → Command} :
    (tree.modify id change).modify id next = tree.modify id (next ∘ change) := by
  refine eq_of_node (by simp) fun other hother => ?_
  rw [size_modify, size_modify] at hother
  by_cases hne : other = id
  · subst hne
    rw [node_modify_self (by simpa using hother), node_modify_self hother,
      command_modify_self hother, node_modify_self hother]
    rfl
  · simp only [node_modify_of_ne hne]

/-- Enclosing commands come before a command. -/
theorem lt_of_mem_ancestors (hancestor : other ∈ tree.ancestors id) : other < id := by
  induction id using Nat.strongRecOn with
  | _ id ih =>
    rw [ancestors] at hancestor
    split at hancestor
    · cases hancestor
    · rename_i parent _
      split at hancestor
      · rename_i hlt
        rcases List.mem_cons.mp hancestor with rfl | hancestor
        · exact hlt
        · exact Nat.lt_trans (ih parent hlt hancestor) hlt
      · cases hancestor

/-- A command on the line of another does not come after it. -/
theorem le_of_mem_lineage (hmem : other ∈ tree.lineage id) : other ≤ id := by
  rcases List.mem_cons.mp hmem with rfl | hancestor
  · exact Nat.le_refl _
  · exact Nat.le_of_lt (lt_of_mem_ancestors hancestor)

/-- The enclosing commands do not depend on declarations. -/
@[simp] theorem ancestors_modify :
    (tree.modify id change).ancestors other = tree.ancestors other := by
  induction other using Nat.strongRecOn with
  | _ other ih =>
    rw [ancestors, ancestors, parent_modify]
    cases (tree.node other).parent with
    | none => rfl
    | some parent =>
      by_cases hlt : parent < other
      · simp only [if_pos hlt, ih parent hlt]
      · simp only [if_neg hlt]

/-- A command's own declaration does not matter to the positions before it. -/
@[simp] theorem slotsBefore_modify_self :
    (tree.modify id change).slotsBefore id = tree.slotsBefore id := by
  rw [slotsBefore, slotsBefore, ancestors_modify]
  refine List.foldr_ext _ _ _ fun ancestor hancestor count => ?_
  rw [command_modify_of_ne (Nat.ne_of_lt (lt_of_mem_ancestors hancestor))]

/-- A command's own declaration does not matter to where its positions begin. -/
@[simp] theorem positionalNumber_modify_self :
    (tree.modify id change).positionalNumber id = tree.positionalNumber id := by
  funext place
  rw [positionalNumber, positionalNumber, slotsBefore_modify_self]

/-! ## Attaching a subcommand -/

@[simp] theorem size_attach : (tree.attach parent command).size = tree.size + 1 := by
  simp [size, attach]

/-- The new subcommand, in its place. -/
theorem node_attach_size : (tree.attach parent command).node tree.size =
    { command := command, parent := some parent } := by
  simp only [node, node?, attach, size, Array.getElem?_push, Array.size_modify]
  simp

/-- The command that gets the new subcommand, in its place. -/
theorem node_attach_parent (hparent : parent < tree.size) :
    (tree.attach parent command).node parent =
      { tree.node parent with
        command := { tree.command parent with
          slot := some ((tree.command parent).slot.getD {}) }
        children := tree.children parent ++ [tree.size] } := by
  have hparent' : parent < tree.nodes.size := hparent
  simp [node, node?, attach, size, CommandTree.command, children, Array.getElem?_push,
    Array.getElem?_modify, Array.getElem?_eq_getElem hparent', Nat.ne_of_lt hparent']

/-- The other commands stay what they are. -/
theorem node_attach_of_ne (hsize : other ≠ tree.size) (hparent : other ≠ parent) :
    (tree.attach parent command).node other = tree.node other := by
  have hsize' : other ≠ tree.nodes.size := hsize
  simp [node, node?, attach, Array.getElem?_push, Array.getElem?_modify, hsize', hparent.symm]

/-- The new subcommand is the only one that gets a parent. -/
theorem parent_attach (hparent : parent < tree.size) (other : Nat) :
    ((tree.attach parent command).node other).parent =
      if other = tree.size then some parent else (tree.node other).parent := by
  by_cases hsize : other = tree.size
  · rw [if_pos hsize, hsize, node_attach_size]
  · rw [if_neg hsize]
    by_cases heq : other = parent
    · rw [heq, node_attach_parent hparent]
    · rw [node_attach_of_ne hsize heq]

/-- The new subcommand is the last one of its parent. -/
theorem children_attach (hparent : parent < tree.size) (other : Nat) :
    (tree.attach parent command).children other =
      if other = parent then tree.children parent ++ [tree.size] else tree.children other := by
  by_cases heq : other = parent
  · rw [if_pos heq, heq, children, node_attach_parent hparent]
  · rw [if_neg heq]
    by_cases hsize : other = tree.size
    · rw [hsize, children, node_attach_size, children_of_size_le (Nat.le_refl _)]
    · rw [children, node_attach_of_ne hsize heq, children]

/-- The new subcommand declares what was given, its parent gets a slot if it had none, and
the others declare what they declared. -/
theorem command_attach (hparent : parent < tree.size) (other : Nat) :
    (tree.attach parent command).command other =
      if other = tree.size then command
      else if other = parent then { tree.command parent with
        slot := some ((tree.command parent).slot.getD {}) }
      else tree.command other := by
  by_cases hsize : other = tree.size
  · rw [if_pos hsize, hsize, CommandTree.command, node_attach_size]
  · rw [if_neg hsize]
    by_cases heq : other = parent
    · rw [if_pos heq, heq, CommandTree.command, node_attach_parent hparent]
    · rw [if_neg heq, CommandTree.command, node_attach_of_ne hsize heq, CommandTree.command]

/-- A command that was there before keeps its declaration, but may get a slot. -/
theorem exists_command_attach (hparent : parent < tree.size) (hother : other < tree.size) :
    ∃ slot, (tree.attach parent command).command other = { tree.command other with slot } ∧
      ((tree.command other).slot.isSome → slot.isSome) := by
  rw [command_attach hparent, if_neg (Nat.ne_of_lt hother)]
  by_cases heq : other = parent
  · rw [if_pos heq, ← heq]
    exact ⟨_, rfl, fun _ => rfl⟩
  · rw [if_neg heq]
    exact ⟨_, rfl, fun hslot => hslot⟩

/-- What holds of the new subcommand, of its parent with a slot and of all others holds of every
declaration. -/
theorem forall_command_attach (property : Command → Prop) (hparent : parent < tree.size)
    (hnew : property command)
    (hslot : property { tree.command parent with
      slot := some ((tree.command parent).slot.getD {}) })
    (hothers : ∀ other, property (tree.command other)) (other : Nat) :
    property ((tree.attach parent command).command other) := by
  rw [command_attach hparent]
  split
  · exact hnew
  · split
    · exact hslot
    · exact hothers other

/-- Replacing the declaration of a new subcommand is attaching another one. -/
theorem modify_attach_size (hparent : parent < tree.size) (other : Command) :
    (tree.attach parent command).modify tree.size (fun _ => other) = tree.attach parent other := by
  refine eq_of_node (by simp) fun id hid => ?_
  by_cases hsize : id = tree.size
  · rw [hsize, node_modify_self (by simp), node_attach_size, node_attach_size]
  · rw [node_modify_of_ne hsize]
    by_cases heq : id = parent
    · rw [heq, node_attach_parent hparent, node_attach_parent hparent]
    · rw [node_attach_of_ne hsize heq, node_attach_of_ne hsize heq]

/-- A command without a slot may get the default one before it gets a subcommand. -/
theorem attach_modify_slot (hparent : parent < tree.size)
    (hslot : (tree.command parent).slot = none) (command : Command) :
    (tree.modify parent fun command => { command with slot := some {} }).attach parent command =
      tree.attach parent command := by
  let slotted := tree.modify parent fun command => { command with slot := some {} }
  have hsize : slotted.size = tree.size := size_modify
  refine eq_of_node (by simp) fun id hid => ?_
  by_cases hnew : id = tree.size
  · rw [hnew, node_attach_size, ← hsize]
    exact node_attach_size
  · by_cases heq : id = parent
    · rw [heq, node_attach_parent hparent, node_attach_parent (by rwa [size_modify])]
      simp [node_modify_self hparent, hparent, hslot]
    · rw [node_attach_of_ne hnew heq, node_attach_of_ne (by rwa [size_modify]) heq,
        node_modify_of_ne heq]

end ShellCompletion.CommandTree
