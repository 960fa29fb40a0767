import Mathlib.Data.List.Induction
import Mathlib.Data.List.Perm.Basic
import ShellCompletion.Document.Export
import ShellCompletion.Document.Import
import ShellCompletion.Proofs.CommandTree.Walk
import ShellCompletion.Proofs.Document.Described

/-!
# The order in which documents are read

Documents are read by the lengths of their paths. For the documents of a tree this means
that the program comes first, that every command comes after its parent, and that
subcommands of one command keep their order.
-/

namespace ShellCompletion.CommandTree

variable {tree : CommandTree} {id parent : Nat}

/-- Whether the path of a command is not longer than that of another. -/
def pathLE (tree : CommandTree) (a b : Nat) : Bool :=
  (tree.lineage a).length ≤ (tree.lineage b).length

/-- The commands of a tree by the lengths of their paths, else in the order of the walk. -/
def readingOrder (tree : CommandTree) : List Nat :=
  tree.walk.mergeSort tree.pathLE

/-- A command that can be added after others: its parent was added, and none of its later
siblings. -/
structure IsNext (tree : CommandTree) (done : List Nat) (parent id : Nat) : Prop where
  /-- The command is a subcommand of the parent. -/
  parent_eq : (tree.node id).parent = some parent
  /-- The parent was added. -/
  mem : parent ∈ done
  /-- The command was not added. -/
  notMem : id ∉ done
  /-- Only earlier subcommands of the parent were added. -/
  siblings : ∀ sibling ∈ tree.children parent, sibling ∈ done → sibling < id

/-- Commands that were added one after the other, the program first. -/
inductive Grows (tree : CommandTree) : List Nat → Prop
  /-- The program alone. -/
  | program : Grows tree [0]
  /-- One more subcommand. -/
  | subcommand {done : List Nat} {parent id : Nat} (hdone : Grows tree done)
      (hnext : tree.IsNext done parent id) : Grows tree (done ++ [id])

namespace Grows

variable {done : List Nat}

/-- The program was added. -/
theorem root_mem (hgrows : tree.Grows done) : 0 ∈ done := by
  induction hgrows with
  | program => exact List.mem_cons_self
  | subcommand _ _ ih => exact List.mem_append_left _ ih

/-- The program was added first. -/
theorem eq_cons (hgrows : tree.Grows done) : done = 0 :: done.tail := by
  induction hgrows with
  | program => rfl
  | subcommand _ _ ih =>
    rw [ih]
    rfl

/-- No command was added twice. -/
theorem nodup (hgrows : tree.Grows done) : done.Nodup := by
  induction hgrows with
  | program => exact List.nodup_singleton 0
  | subcommand _ hnext ih =>
    refine List.nodup_append.mpr ⟨ih, List.nodup_singleton _, ?_⟩
    intro other hother last hlast
    rw [List.mem_singleton.mp hlast]
    exact fun heq => hnext.notMem (heq ▸ hother)

/-- Only commands of the tree were added. -/
theorem lt_size (hgrows : tree.Grows done) (hwf : tree.WellFormed) :
    ∀ id ∈ done, id < tree.size := by
  induction hgrows with
  | program => simpa using hwf.size_pos
  | subcommand _ hnext ih =>
    intro other hother
    rcases List.mem_append.mp hother with hold | hnew
    · exact ih other hold
    · rw [List.mem_singleton.mp hnew]
      exact lt_size_of_parent hnext.parent_eq

/-- Parents were added, and before their subcommands. -/
theorem idxOf_parent_lt (hgrows : tree.Grows done) (hwf : tree.WellFormed) :
    ∀ id ∈ done, ∀ parent, (tree.node id).parent = some parent →
      parent ∈ done ∧ done.idxOf parent < done.idxOf id := by
  induction hgrows with
  | program =>
    intro id hid parent hparent
    rw [List.mem_singleton.mp hid, hwf.parent_root] at hparent
    cases hparent
  | subcommand _ hnext ih =>
    intro id hid parent hparent
    rcases List.mem_append.mp hid with hold | heq
    · obtain ⟨hparent_mem, hlt⟩ := ih id hold parent hparent
      rw [List.idxOf_append_of_mem hparent_mem, List.idxOf_append_of_mem hold]
      exact ⟨List.mem_append_left _ hparent_mem, hlt⟩
    · rw [List.mem_singleton.mp heq] at hparent ⊢
      rw [hnext.parent_eq] at hparent
      cases hparent
      have hlt := List.idxOf_lt_length_iff.mpr hnext.mem
      rw [List.idxOf_append_of_mem hnext.mem, List.idxOf_append_of_notMem hnext.notMem]
      exact ⟨List.mem_append_left _ hnext.mem, by omega⟩

end Grows

/-! ## Sorting by the lengths of paths -/

/-- The reading order has the commands of the tree. -/
theorem WellFormed.readingOrder_perm (hwf : tree.WellFormed) :
    tree.readingOrder.Perm tree.ids :=
  (List.mergeSort_perm _ _).trans hwf.walk_perm

/-- The reading order has no command twice. -/
theorem WellFormed.nodup_readingOrder (hwf : tree.WellFormed) : tree.readingOrder.Nodup :=
  hwf.readingOrder_perm.nodup_iff.mpr List.nodup_range

/-- The reading order has exactly the commands of the tree. -/
theorem WellFormed.mem_readingOrder (hwf : tree.WellFormed) :
    id ∈ tree.readingOrder ↔ id < tree.size := by
  rw [hwf.readingOrder_perm.mem_iff, ids, List.mem_range]

/-- Lengths of paths compare transitively. -/
theorem pathLE_trans (tree : CommandTree) (a b c : Nat) (hab : tree.pathLE a b)
    (hbc : tree.pathLE b c) : tree.pathLE a c := by
  simp only [pathLE, decide_eq_true_eq] at *
  omega

/-- Lengths of paths compare in one direction at least. -/
theorem pathLE_total (tree : CommandTree) (a b : Nat) : tree.pathLE a b || tree.pathLE b a := by
  simp only [pathLE, Bool.or_eq_true, decide_eq_true_eq]
  omega

/-- Subcommands have longer paths than the command that holds them. -/
theorem WellFormed.length_lineage (hwf : tree.WellFormed)
    (hparent : (tree.node id).parent = some parent) :
    (tree.lineage id).length = (tree.lineage parent).length + 1 := by
  rw [hwf.lineage_eq hparent, List.length_cons]

/-- The reading order keeps the order of the subcommands of a command. -/
theorem WellFormed.filter_readingOrder (hwf : tree.WellFormed) (id : Nat) :
    tree.readingOrder.filter (· ∈ tree.children id) = tree.children id := by
  have hlength : ∀ child ∈ tree.children id,
      (tree.lineage child).length = (tree.lineage id).length + 1 :=
    fun child hchild => hwf.length_lineage ((hwf.mem_children id child).mp hchild)
  have hsorted : (tree.children id).Pairwise fun a b => tree.pathLE a b := by
    refine (hwf.ascending id).imp_of_mem fun hfirst hsecond _ => ?_
    rw [pathLE, hlength _ hfirst, hlength _ hsecond]
    exact decide_eq_true (Nat.le_refl _)
  have hsublist : (tree.children id).Sublist tree.readingOrder :=
    List.sublist_mergeSort tree.pathLE_trans tree.pathLE_total hsorted
      (hwf.children_sublist_walk id)
  have hfiltered := hsublist.filter fun child => decide (child ∈ tree.children id)
  rw [List.filter_eq_self.mpr fun child hchild => decide_eq_true hchild] at hfiltered
  refine (hfiltered.eq_of_length_le ?_).symm
  refine List.Subperm.length_le (List.subperm_of_subset (hwf.nodup_readingOrder.filter _) ?_)
  intro child hchild
  simpa using (List.mem_filter.mp hchild).2

/-- The parent of a command is read before it. -/
theorem WellFormed.parent_mem_of_readingOrder (hwf : tree.WellFormed) {done later : List Nat}
    (hsplit : tree.readingOrder = done ++ id :: later)
    (hparent : (tree.node id).parent = some parent) : parent ∈ done := by
  have hmem : parent ∈ done ++ id :: later := by
    rw [← hsplit, hwf.mem_readingOrder]
    exact Nat.lt_trans (hwf.parent_lt id parent hparent) (lt_size_of_parent hparent)
  have hpaths : (done ++ id :: later).Pairwise fun a b => tree.pathLE a b := by
    rw [← hsplit]
    exact List.pairwise_mergeSort tree.pathLE_trans tree.pathLE_total tree.walk
  -- The path of the parent is shorter, and nothing behind the command has a shorter path.
  have hlength := hwf.length_lineage hparent
  rcases List.mem_append.mp hmem with hdone | hrest
  · exact hdone
  · rcases List.mem_cons.mp hrest with rfl | hlater
    · omega
    · have hle := (List.pairwise_cons.mp (List.pairwise_append.mp hpaths).2.1).1 _ hlater
      rw [pathLE, decide_eq_true_eq] at hle
      omega

/-- Of the subcommands of one command, only earlier ones are read before another. -/
theorem WellFormed.lt_of_readingOrder (hwf : tree.WellFormed) {done later : List Nat}
    (hsplit : tree.readingOrder = done ++ id :: later)
    (hparent : (tree.node id).parent = some parent) {sibling : Nat}
    (hsibling : sibling ∈ tree.children parent) (hdone : sibling ∈ done) : sibling < id := by
  have hascending := hwf.ascending parent
  rw [← hwf.filter_readingOrder parent, hsplit, List.filter_append] at hascending
  refine (List.pairwise_append.mp hascending).2.2 sibling ?_ id ?_
  · exact List.mem_filter.mpr ⟨hdone, decide_eq_true hsibling⟩
  · refine List.mem_filter.mpr ⟨List.mem_cons_self, decide_eq_true ?_⟩
    exact (hwf.mem_children parent id).mpr hparent

/-- Every beginning of the reading order grows from the program. -/
theorem WellFormed.grows_of_readingOrder (hwf : tree.WellFormed) {done later : List Nat}
    (horder : tree.readingOrder = done ++ later) (hdone : done ≠ []) : tree.Grows done := by
  have hnodup := hwf.nodup_readingOrder
  induction done using List.reverseRecOn generalizing later with
  | nil => exact absurd rfl hdone
  | append_singleton done id ih =>
    have hsplit : tree.readingOrder = done ++ id :: later := by rw [horder]; simp
    have hid : id < tree.size := hwf.mem_readingOrder.mp (by rw [hsplit]; simp)
    have hnew : id ∉ done := by
      rw [hsplit] at hnodup
      exact fun hmem => (List.disjoint_of_nodup_append hnodup) hmem List.mem_cons_self
    rcases Nat.eq_zero_or_pos id with rfl | hpos
    · -- The program would already be among commands that grew, so nothing comes before it.
      rcases List.eq_nil_or_concat done with rfl | ⟨rest, last, rfl⟩
      · exact .program
      · exact absurd (ih hsplit (by simp)).root_mem hnew
    · obtain ⟨parent, -, hparent⟩ := hwf.exists_parent hpos hid
      have hmem := hwf.parent_mem_of_readingOrder hsplit hparent
      refine .subcommand (ih hsplit (List.ne_nil_of_mem hmem)) ⟨hparent, hmem, hnew, ?_⟩
      exact fun sibling hsibling => hwf.lt_of_readingOrder hsplit hparent hsibling

/-- The reading order grows from the program. -/
theorem WellFormed.grows_readingOrder (hwf : tree.WellFormed) : tree.Grows tree.readingOrder := by
  refine hwf.grows_of_readingOrder (List.append_nil _).symm (List.ne_nil_of_mem (a := 0) ?_)
  exact hwf.mem_readingOrder.mpr hwf.size_pos

end ShellCompletion.CommandTree
