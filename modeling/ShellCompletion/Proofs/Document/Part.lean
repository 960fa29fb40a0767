import Mathlib.Data.List.Find
import Mathlib.Data.List.Sort
import ShellCompletion.Proofs.CommandTree.Renumbering
import ShellCompletion.Proofs.Document.ReadingOrder

/-!
# The tree that some documents of a tree describe

Reading the documents of some commands of a tree gives the part of the tree that these
commands make up. Its numbers are places in the reading order, its subcommands are those
that were read, and a default slot is there once a subcommand brought it along.
-/

namespace ShellCompletion.CommandTree

variable {tree : CommandTree} {done : List Nat} {id parent : Nat}

/-- The slot of a command as far as its document or one of the given subcommands brings
it along. -/
def slotAmong (tree : CommandTree) (done : List Nat) (id : Nat) : Option SubcommandSlot :=
  if (tree.slotDocument id).isSome ∨ (tree.children id).filter (· ∈ done) ≠ [] then
    (tree.command id).slot
  else none

/-- A command as one of the given commands. -/
def partNode (tree : CommandTree) (done : List Nat) (id : Nat) : Node where
  command := { tree.command id with slot := tree.slotAmong done id }
  parent := (tree.node id).parent.map done.idxOf
  children := ((tree.children id).filter (· ∈ done)).map done.idxOf

/-- The part of a tree that the given commands make up. -/
def part (tree : CommandTree) (done : List Nat) : CommandTree :=
  ⟨(done.map (tree.partNode done)).toArray⟩

@[simp] theorem size_part : (tree.part done).size = done.length := by
  simp [size, part]

/-- The commands of a part by their places. -/
theorem node_part {place : Nat} (hplace : place < done.length) :
    (tree.part done).node place = tree.partNode done done[place] := by
  simp [node, node?, part, hplace]

/-- The commands of a part. -/
theorem node_part_idxOf (hid : id ∈ done) :
    (tree.part done).node (done.idxOf id) = tree.partNode done id := by
  rw [node_part (List.idxOf_lt_length_iff.mpr hid), List.getElem_idxOf]

/-- Only subcommands that are among the given commands can bring a slot along. -/
theorem WellFormed.slotAmong_of_mem (hwf : tree.WellFormed)
    (hparent : (tree.node id).parent = some parent) (hid : id ∈ done) :
    tree.slotAmong done parent = (tree.command parent).slot := by
  have hchild := (hwf.mem_children parent id).mpr hparent
  exact if_pos (.inr (List.ne_nil_of_mem (List.mem_filter.mpr ⟨hchild, decide_eq_true hid⟩)))

/-- The document of a command names its slot unless subcommands bring that along. -/
theorem slotDocument_eq (tree : CommandTree) (id : Nat) :
    (tree.slotDocument id).map (fun slot => (⟨slot.metavar, slot.help⟩ : SubcommandSlot)) =
      if (tree.command id).slot = some {} ∧ tree.children id ≠ [] then none
      else (tree.command id).slot := by
  rw [slotDocument]
  cases hslot : (tree.command id).slot with
  | none => rfl
  | some slot =>
    by_cases hdefault : slot = {} ∧ tree.children id ≠ []
    · simp [hdefault]
    · simp only [Option.some.injEq, if_neg hdefault]
      simpa using fun heq => by_contra fun hne => hdefault ⟨heq, hne⟩

/-- Without subcommands, the document tells all about the slot. -/
theorem slotAmong_of_filter_eq_nil (hnone : (tree.children id).filter (· ∈ done) = []) :
    tree.slotAmong done id =
      (tree.slotDocument id).map fun slot => (⟨slot.metavar, slot.help⟩ : SubcommandSlot) := by
  have hslot := tree.slotDocument_eq id
  rw [slotAmong]
  cases hdocument : tree.slotDocument id with
  | none => simp [hnone]
  | some slot =>
    rw [hdocument] at hslot
    rw [if_pos (.inl rfl)]
    split at hslot
    · cases hslot
    · exact hslot.symm

/-- The first subcommand brings along the slot that the document leaves out. -/
theorem WellFormed.some_getD_slotAmong (hwf : tree.WellFormed)
    (hparent : (tree.node id).parent = some parent) :
    some ((tree.slotAmong done parent).getD {}) = (tree.command parent).slot := by
  have hchildren : tree.children parent ≠ [] :=
    List.ne_nil_of_mem ((hwf.mem_children parent id).mpr hparent)
  obtain ⟨slot, hslot⟩ := Option.isSome_iff_exists.mp (hwf.slot_isSome parent hchildren)
  have hdocument := tree.slotDocument_eq parent
  rw [slotAmong]
  split
  · rw [hslot]
    rfl
  · rename_i hnone
    simp only [not_or, Option.not_isSome_iff_eq_none] at hnone
    rw [hnone.1] at hdocument
    split at hdocument
    · rename_i hdefault
      rw [hdefault.1]
      rfl
    · rw [hslot] at hdocument
      cases hdocument

/-- One more command that comes after its siblings is the last subcommand of its parent
among the given commands. -/
theorem IsNext.filter_children (hnext : tree.IsNext done parent id) (hwf : tree.WellFormed)
    (other : Nat) :
    (tree.children other).filter (· ∈ done ++ [id]) =
      if other = parent then (tree.children parent).filter (· ∈ done) ++ [id]
      else (tree.children other).filter (· ∈ done) := by
  split
  · rename_i heq
    subst heq
    have hlast : ((tree.children other).filter (· ∈ done) ++ [id]).Pairwise (· < ·) := by
      refine List.pairwise_append.mpr
        ⟨(hwf.ascending other).filter _, List.pairwise_singleton _ _, ?_⟩
      intro sibling hsibling last hmem
      rw [List.mem_filter, decide_eq_true_eq] at hsibling
      rw [List.mem_singleton.mp hmem]
      exact hnext.siblings sibling hsibling.1 hsibling.2
    have hall := (hwf.ascending other).filter (· ∈ done ++ [id])
    refine hall.eq_of_mem_iff hlast fun child => ?_
    have hid := (hwf.mem_children other id).mpr hnext.parent_eq
    simp only [List.mem_filter, List.mem_append, List.mem_singleton, decide_eq_true_eq]
    constructor
    · rintro ⟨hchild, hmem | rfl⟩
      · exact .inl ⟨hchild, hmem⟩
      · exact .inr rfl
    · rintro (⟨hchild, hmem⟩ | rfl)
      · exact ⟨hchild, .inl hmem⟩
      · exact ⟨hid, .inr rfl⟩
  · rename_i hne
    refine List.filter_congr fun child hchild => ?_
    have hid : child ≠ id := by
      rintro rfl
      rw [hwf.mem_children, hnext.parent_eq] at hchild
      exact hne (Option.some.inj hchild).symm
    simp [hid]

/-- Places do not change when one more command is added. -/
theorem map_idxOf_append (id : Nat) {ids : List Nat} (hids : ∀ other ∈ ids, other ∈ done) :
    ids.map (done ++ [id]).idxOf = ids.map done.idxOf :=
  List.map_congr_left fun other hother => List.idxOf_append_of_mem (hids other hother)

/-- The place of a parent does not change when one more command is added. -/
theorem Grows.map_parent_append (hgrows : tree.Grows done) (hwf : tree.WellFormed) {other : Nat}
    (hother : other ∈ done) : (tree.node other).parent.map (done ++ [id]).idxOf =
      (tree.node other).parent.map done.idxOf := by
  cases hparent : (tree.node other).parent with
  | none => rfl
  | some parent =>
    have hmem := (hgrows.idxOf_parent_lt hwf other hother parent hparent).1
    rw [Option.map_some, Option.map_some, List.idxOf_append_of_mem hmem]

/-- A command other than the parent is not affected by one more command. -/
theorem IsNext.partNode_of_ne (hnext : tree.IsNext done parent id) (hwf : tree.WellFormed)
    (hgrows : tree.Grows done) {other : Nat} (hother : other ∈ done) (hne : other ≠ parent) :
    tree.partNode (done ++ [id]) other = tree.partNode done other := by
  have hfilter := hnext.filter_children hwf other
  rw [if_neg hne] at hfilter
  have hslot : tree.slotAmong (done ++ [id]) other = tree.slotAmong done other := by
    rw [slotAmong, slotAmong, hfilter]
  have hkept : ∀ child ∈ (tree.children other).filter (· ∈ done), child ∈ done :=
    fun child hchild => of_decide_eq_true (List.mem_filter.mp hchild).2
  rw [partNode, partNode, hslot, hgrows.map_parent_append hwf hother, hfilter,
    map_idxOf_append id hkept]

/-- The parent gets one more command as its last subcommand, and a slot if it had none. -/
theorem IsNext.partNode_parent (hnext : tree.IsNext done parent id) (hwf : tree.WellFormed)
    (hgrows : tree.Grows done) :
    tree.partNode (done ++ [id]) parent =
      { tree.partNode done parent with
        command := { tree.command parent with
          slot := some ((tree.slotAmong done parent).getD {}) }
        children := (tree.partNode done parent).children ++ [done.length] } := by
  have hfilter := hnext.filter_children hwf parent
  rw [if_pos rfl] at hfilter
  have hslot : tree.slotAmong (done ++ [id]) parent =
      some ((tree.slotAmong done parent).getD {}) := by
    rw [hwf.slotAmong_of_mem hnext.parent_eq (by simp), hwf.some_getD_slotAmong hnext.parent_eq]
  have hkept : ∀ child ∈ (tree.children parent).filter (· ∈ done), child ∈ done :=
    fun child hchild => of_decide_eq_true (List.mem_filter.mp hchild).2
  have hplace : (done ++ [id]).idxOf id = done.length := by
    rw [List.idxOf_append_of_notMem hnext.notMem]
    simp
  simp only [partNode, hslot, hgrows.map_parent_append hwf hnext.mem, hfilter, List.map_append,
    map_idxOf_append id hkept, List.map_cons, List.map_nil, hplace]

/-- The new command has no subcommands yet, and only the slot of its document. -/
theorem IsNext.partNode_self (hnext : tree.IsNext done parent id) (hwf : tree.WellFormed)
    (hgrows : tree.Grows done) :
    tree.partNode (done ++ [id]) id =
      { command := { tree.command id with
          slot := (tree.slotDocument id).map fun slot => ⟨slot.metavar, slot.help⟩ }
        parent := some (done.idxOf parent) } := by
  have hnone : ∀ child ∈ tree.children id, child ∉ done ++ [id] := by
    intro child hchild hmem
    rcases List.mem_append.mp hmem with hmem | heq
    · have hparent := (hwf.mem_children id child).mp hchild
      exact hnext.notMem (hgrows.idxOf_parent_lt hwf child hmem id hparent).1
    · have hlt := hwf.lt_of_mem_children hchild
      rw [List.mem_singleton.mp heq] at hlt
      omega
  have hfilter : (tree.children id).filter (· ∈ done ++ [id]) = [] := by
    rw [List.filter_eq_nil_iff]
    exact fun child hchild => by simpa using hnone child hchild
  rw [partNode, slotAmong_of_filter_eq_nil hfilter, hfilter, hnext.parent_eq, Option.map_some,
    List.idxOf_append_of_mem hnext.mem, List.map_nil]

/-- Attaching one more command to a part of a tree gives the larger part. -/
theorem IsNext.attach_part (hnext : tree.IsNext done parent id) (hwf : tree.WellFormed)
    (hgrows : tree.Grows done) (command : Command) :
    ((tree.part done).attach (done.idxOf parent) command).modify done.length
        (fun _ => { tree.command id with
          slot := (tree.slotDocument id).map fun slot => ⟨slot.metavar, slot.help⟩ }) =
      tree.part (done ++ [id]) := by
  have hparent_lt : done.idxOf parent < (tree.part done).size := by
    rw [size_part]
    exact List.idxOf_lt_length_iff.mpr hnext.mem
  have hsize : (tree.part done).size = done.length := size_part
  refine eq_of_node (by simp) fun place hplace => ?_
  rw [size_modify, size_attach, size_part] at hplace
  by_cases hlast : place = done.length
  · have hnew : ((tree.part done).attach (done.idxOf parent) command).node done.length =
        { command := command, parent := some (done.idxOf parent) } := by
      rw [← hsize, node_attach_size]
    have hself : (tree.part (done ++ [id])).node done.length =
        tree.partNode (done ++ [id]) id := by
      rw [node_part (by simp)]
      simp
    rw [hlast, node_modify_self (by simp), hnew, hself, hnext.partNode_self hwf hgrows]
  · have hmem : place < done.length := by omega
    have hother : done[place] ∈ done := List.getElem_mem hmem
    have hplace_eq : done.idxOf done[place] = place :=
      hgrows.nodup.idxOf_getElem place hmem
    rw [node_modify_of_ne hlast, node_part (by simp; omega), List.getElem_append_left hmem]
    by_cases heq : done[place] = parent
    · rw [heq] at hplace_eq
      rw [heq, ← hplace_eq, node_attach_parent hparent_lt, CommandTree.command, children,
        node_part_idxOf hnext.mem, hsize, hnext.partNode_parent hwf hgrows]
      rfl
    · have hne : place ≠ done.idxOf parent := by
        rintro rfl
        exact heq (List.getElem_idxOf _)
      rw [node_attach_of_ne (by omega) hne, node_part hmem,
        hnext.partNode_of_ne hwf hgrows hother heq]

/-! ## Lines and paths in a part -/

/-- The enclosing commands of a command in a part are those in the tree. -/
theorem Grows.ancestors_part (hgrows : tree.Grows done) (hwf : tree.WellFormed)
    (hid : id ∈ done) :
    (tree.part done).ancestors (done.idxOf id) = (tree.ancestors id).map done.idxOf := by
  induction id using Nat.strongRecOn with
  | _ id ih =>
    rw [ancestors, node_part_idxOf hid, partNode]
    cases hparent : (tree.node id).parent with
    | none =>
      rw [ancestors, hparent]
      rfl
    | some parent =>
      obtain ⟨hmem, hlt⟩ := hgrows.idxOf_parent_lt hwf id hid parent hparent
      simp only [Option.map_some, if_pos hlt]
      rw [ih parent (hwf.parent_lt id parent hparent) hmem, hwf.ancestors_eq hparent,
        List.map_cons]

/-- The whole line of a command was added. -/
theorem Grows.mem_of_mem_lineage (hgrows : tree.Grows done) (hwf : tree.WellFormed)
    (hid : id ∈ done) {other : Nat} (hother : other ∈ tree.lineage id) : other ∈ done := by
  induction id using Nat.strongRecOn with
  | _ id ih =>
    rcases List.mem_cons.mp hother with rfl | hancestor
    · exact hid
    · cases hparent : (tree.node id).parent with
      | none =>
        rw [ancestors, hparent] at hancestor
        cases hancestor
      | some parent =>
        have hmem := (hgrows.idxOf_parent_lt hwf id hid parent hparent).1
        rw [hwf.ancestors_eq hparent] at hancestor
        exact ih parent (hwf.parent_lt id parent hparent) hmem hancestor

/-- Equally many positions come before a command in a part and in the tree. -/
theorem Grows.slotsBefore_part (hgrows : tree.Grows done) (hwf : tree.WellFormed)
    (hid : id ∈ done) :
    (tree.part done).slotsBefore (done.idxOf id) = tree.slotsBefore id := by
  rw [slotsBefore, slotsBefore, hgrows.ancestors_part hwf hid, List.foldr_map]
  refine List.foldr_ext _ _ _ fun ancestor hancestor count => ?_
  have hmem := hgrows.mem_of_mem_lineage hwf hid (List.mem_cons_of_mem _ hancestor)
  obtain ⟨child, hchild, hline⟩ := hwf.exists_child_of_mem_ancestors hancestor
  have hslot := hwf.slotAmong_of_mem ((hwf.mem_children ancestor child).mp hchild)
    (hgrows.mem_of_mem_lineage hwf hid hline)
  rw [command, node_part_idxOf hmem, partNode, hslot]

/-- Looking for a subcommand in a part is looking among the subcommands that were added. -/
theorem findSubcommand?_part (hid : id ∈ done) (name : String) :
    (tree.part done).findSubcommand? (done.idxOf id) name =
      (((tree.children id).filter (· ∈ done)).find? fun child =>
        (tree.command child).names.contains name).map done.idxOf := by
  rw [findSubcommand?, children, node_part_idxOf hid, partNode, List.find?_map]
  refine congrArg (Option.map done.idxOf) (List.find?_congr fun child hchild => ?_)
  have hmem : child ∈ done := of_decide_eq_true (List.mem_filter.mp hchild).2
  rw [Function.comp_apply, command, node_part_idxOf hmem]
  rfl

/-- A command is found in a part below its parent by its name. -/
theorem Described.findSubcommand?_part (htree : tree.Described)
    (hparent : (tree.node id).parent = some parent) (hmem : parent ∈ done) (hid : id ∈ done) :
    (tree.part done).findSubcommand? (done.idxOf parent) (tree.command id).name =
      some (done.idxOf id) := by
  have hchild : id ∈ (tree.children parent).filter (· ∈ done) := by
    have hchildren := (htree.built.wellFormed.mem_children parent id).mpr hparent
    exact List.mem_filter.mpr ⟨hchildren, decide_eq_true hid⟩
  have hfind := find?_name ((htree.name_notMem parent).filter (· ∈ done)) hchild
  rw [CommandTree.findSubcommand?_part hmem, hfind, Option.map_some]

/-- No subcommand that was added answers to the name of the next one. -/
theorem IsNext.findSubcommand?_part (hnext : tree.IsNext done parent id)
    (htree : tree.Described) :
    (tree.part done).findSubcommand? (done.idxOf parent) (tree.command id).name = none := by
  have hpairs := (htree.name_notMem parent).filter (· ∈ done ++ [id])
  rw [hnext.filter_children htree.built.wellFormed, if_pos rfl] at hpairs
  rw [CommandTree.findSubcommand?_part hnext.mem, Option.map_eq_none_iff, List.find?_eq_none]
  intro sibling hsibling
  simpa using (List.pairwise_append.mp hpairs).2.2 sibling hsibling id List.mem_cons_self

end ShellCompletion.CommandTree
