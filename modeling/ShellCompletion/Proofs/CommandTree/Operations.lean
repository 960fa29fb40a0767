import ShellCompletion.Proofs.CommandTree.Preorder
import ShellCompletion.Proofs.Scope.Declarations

/-!
# Operations in a row

Whatever operations are applied to a tree, and whether or not they succeed, its commands stay
one tree: parents come first, every command but the program is held once by its parent, and the
walk passes all of them. An operation that fails may have done a part of its work before.
-/

namespace ShellCompletion.CommandTree

variable {tree after : CommandTree}

/-- An operation on a tree, with the number of the command that it is applied to. -/
inductive Operation where
  /-- The program is renamed. -/
  | rename (name : String)
  /-- A command gets one more option. -/
  | addOption (id : Nat) (option : CommandOption)
  /-- A command gets more options, which form a group. -/
  | addGroup (id : Nat) (group : String) (options : List CommandOption)
  /-- A command gets one more positional argument. -/
  | addPositional (id : Nat) (positional : Positional)
  /-- A command gets a slot for subcommands. -/
  | addSlot (id : Nat) (slot : SubcommandSlot)
  /-- A command gets one more subcommand. -/
  | addSubcommand (id : Nat) (name help : String)

namespace Operation

/-- The number of the command that the operation is applied to. -/
def target : Operation → Nat
  | rename _ => 0
  | addOption id _ | addGroup id _ _ | addPositional id _ | addSlot id _ | addSubcommand id _ _ => id

/-- What an attempt leaves: its result, or the tree as it was and the error. -/
def settle (tree : CommandTree) : Except Error CommandTree → CommandTree × Except Error Unit
  | .ok after => (after, .ok ())
  | .error error => (tree, .error error)

/-- The tree after the operation, and whether the operation succeeded. -/
def attempt (tree : CommandTree) : Operation → CommandTree × Except Error Unit
  | rename name => (tree.rename name, .ok ())
  | addOption id option => settle tree (tree.addOption id option)
  | addGroup id group options => tree.addGroup id group options
  | addPositional id positional => (tree.addPositional id positional, .ok ())
  | addSlot id slot => settle tree (tree.addSlot id slot)
  | addSubcommand id name help => settle tree ((tree.addSubcommand id name help).map (·.1))

end Operation

/-- The tree after operations in a row, each of which may fail. -/
def perform (tree : CommandTree) (operations : List Operation) : CommandTree :=
  operations.foldl (fun tree operation => (operation.attempt tree).1) tree

/-- Every operation is applied to a command that the tree has given out by then. -/
def HandedOut (tree : CommandTree) : List Operation → Prop
  | [] => True
  | operation :: rest =>
    operation.target < tree.size ∧ HandedOut (operation.attempt tree).1 rest

/-- The commands form one tree below the program, and what goes through it up or down passes
what it should. -/
structure IsTree (tree : CommandTree) : Prop where
  /-- The program has no parent. -/
  parent_root : (tree.node 0).parent = none
  /-- Every other command has a parent with a smaller number. -/
  exists_parent : ∀ id, 0 < id → id < tree.size →
    ∃ parent < id, (tree.node id).parent = some parent
  /-- A command is held by its parent once, and by no other command. -/
  count_children : ∀ id < tree.size, ∀ holder,
    (tree.children holder).count id = if (tree.node id).parent = some holder then 1 else 0
  /-- The enclosing commands are the parent, the parent of the parent and so on. -/
  ancestors_eq : ∀ id < tree.size, tree.ancestors id =
    match (tree.node id).parent with
    | none => []
    | some parent => parent :: tree.ancestors parent
  /-- Numbers fall on the way up. -/
  descending : ∀ id < tree.size, (tree.lineage id).Pairwise (· > ·)
  /-- The way up ends at the program. -/
  getLast?_lineage : ∀ id < tree.size, (tree.lineage id).getLast? = some 0
  /-- The walk is what a loop over a stack of commands makes. -/
  walk_eq : tree.visit tree.size [0] = tree.walk
  /-- The walk passes every command exactly once. -/
  walk_perm : tree.walk.Perm (List.range tree.size)
  /-- Everything below a command is passed right after it. -/
  exists_walk_eq : ∀ id < tree.size, ∃ before below after,
    tree.walk = before ++ id :: below ++ after ∧
      ∀ other, other ∈ below ↔ id ∈ tree.ancestors other
  /-- Subcommands stand in the order in which they were added. -/
  ascending : ∀ id, (tree.children id).Pairwise (· < ·)
  /-- They are passed in this order. -/
  children_sublist : ∀ id, (tree.children id).Sublist tree.walk
  /-- No two options of a command share an option string. -/
  disjoint : ∀ id, (tree.command id).options.Pairwise fun a b => a.strings.Disjoint b.strings

namespace WellFormed

/-- Numbers fall on the way up from a command. -/
theorem descending (hwf : tree.WellFormed) (id : Nat) : (tree.lineage id).Pairwise (· > ·) := by
  induction id using Nat.strongRecOn with
  | _ id ih =>
    refine List.pairwise_cons.mpr ⟨fun other hother => lt_of_mem_ancestors hother, ?_⟩
    cases hparent : (tree.node id).parent with
    | none =>
      rw [ancestors, hparent]
      exact List.Pairwise.nil
    | some parent =>
      rw [hwf.ancestors_eq hparent]
      exact ih parent (hwf.parent_lt id parent hparent)

/-- The way up from a command ends at the program. -/
theorem getLast?_lineage (hwf : tree.WellFormed) {id : Nat} (hid : id < tree.size) :
    (tree.lineage id).getLast? = some 0 := by
  induction id using Nat.strongRecOn with
  | _ id ih =>
    rcases Nat.eq_zero_or_pos id with rfl | hpos
    · rw [lineage, hwf.ancestors_root]
      rfl
    · obtain ⟨parent, hlt, hparent⟩ := hwf.exists_parent hpos hid
      have hend := ih parent hlt (Nat.lt_trans hlt hid)
      rw [lineage] at hend
      rw [lineage, hwf.ancestors_eq hparent, List.getLast?_cons_cons]
      exact hend

/-- A command is held by its parent once, and by no other command. -/
theorem count_children (hwf : tree.WellFormed) (id holder : Nat) :
    (tree.children holder).count id = if (tree.node id).parent = some holder then 1 else 0 := by
  by_cases hparent : (tree.node id).parent = some holder
  · rw [if_pos hparent]
    have hmem := (hwf.mem_children holder id).mpr hparent
    exact List.count_eq_one_of_mem (hwf.nodup_children holder) hmem
  · rw [if_neg hparent]
    apply List.count_eq_zero_of_not_mem
    intro hmem
    exact hparent ((hwf.mem_children holder id).mp hmem)

/-- A well-formed tree is a tree. -/
theorem isTree (hwf : tree.WellFormed) : tree.IsTree where
  parent_root := hwf.parent_root
  exists_parent _ hpos hid := hwf.exists_parent hpos hid
  count_children id _ holder := hwf.count_children id holder
  ancestors_eq id _ := by
    cases hparent : (tree.node id).parent with
    | none => rw [ancestors, hparent]
    | some parent => exact hwf.ancestors_eq hparent
  descending id _ := hwf.descending id
  getLast?_lineage _ hid := hwf.getLast?_lineage hid
  walk_eq := hwf.visit_root
  walk_perm := hwf.walk_perm
  exists_walk_eq _ hid := hwf.exists_walk_eq hid
  ascending := hwf.ascending
  children_sublist := hwf.children_sublist_walk
  disjoint := hwf.disjoint

end WellFormed

/-! ## What operations keep -/

/-- Options of a group are added by operations as far as they can be added, and no command is
lost. -/
theorem Built.addGroup (hbuilt : tree.Built) {id : Nat} (hid : id < tree.size) (group : String)
    (options : List CommandOption) : (tree.addGroup id group options).1.Built := by
  induction options generalizing tree with
  | nil => exact hbuilt
  | cons option rest ih =>
    rw [CommandTree.addGroup]
    cases hadd : tree.addOption id (option.inGroup group) with
    | error error => exact hbuilt
    | ok after =>
      have hsize : after.size = tree.size := by
        rw [(addOption_eq_ok.mp hadd).2, size_modify]
      exact ih (hbuilt.step (.addOption id _ hid hadd)) (by omega)

/-- What an attempt leaves is built by operations if its result is. -/
theorem Built.settle (hbuilt : tree.Built) {result : Except Error CommandTree}
    (hresult : ∀ after, result = .ok after → after.Built) :
    (Operation.settle tree result).1.Built := by
  cases result with
  | ok after => exact hresult after rfl
  | error error => exact hbuilt

/-- Every operation leaves a tree that is built by operations that succeed. -/
theorem Built.attempt (hbuilt : tree.Built) {operation : Operation}
    (htarget : operation.target < tree.size) : (operation.attempt tree).1.Built := by
  cases operation with
  | rename name =>
    exact hbuilt.step (.describe 0 (fun command => { command with name := name })
      (fun _ => ⟨rfl, rfl, rfl⟩) htarget)
  | addOption id option =>
    apply hbuilt.settle
    intro after hadd
    exact hbuilt.step (.addOption id option htarget hadd)
  | addGroup id group options => exact hbuilt.addGroup htarget group options
  | addPositional id positional => exact hbuilt.step (.addPositional id positional htarget)
  | addSlot id slot =>
    apply hbuilt.settle
    intro after hadd
    exact hbuilt.step (.addSlot id slot htarget hadd)
  | addSubcommand id name help =>
    apply hbuilt.settle
    intro after hresult
    obtain ⟨⟨attached, new⟩, hadd, rfl⟩ := map_eq_ok.mp hresult
    exact hbuilt.step (.addSubcommand id name help htarget hadd)

/-- Operations in a row leave a tree that is built by operations that succeed. -/
theorem Built.perform (hbuilt : tree.Built) {operations : List Operation}
    (hids : tree.HandedOut operations) : (tree.perform operations).Built := by
  induction operations generalizing tree with
  | nil => exact hbuilt
  | cons operation rest ih => exact ih (hbuilt.attempt hids.1) hids.2

/-- After any operations on commands that the tree had given out, successful or not, its
commands form one tree. -/
theorem isTree_perform (program : String) (operations : List Operation)
    (hids : (new program).HandedOut operations) : ((new program).perform operations).IsTree :=
  ((Built.new program).perform hids).wellFormed.isTree

/-- Operations of which the second use of a name and the second option of a group fail. -/
def remoteOperations : List Operation :=
  [.addSubcommand 0 "remote" "", .addSubcommand 0 "remote" "", .addSubcommand 1 "add" "",
    .addGroup 1 "output" [CommandOption.ofStrings ["-q"] (by decide),
      CommandOption.ofStrings ["-q"] (by decide)],
    .addSlot 1 { metavar := "action" }, .addSubcommand 0 "push" "", .rename "git"]

/-- The commands form one tree after these operations, of which three fail. -/
theorem isTree_perform_remote : (new "prog").HandedOut remoteOperations ∧
    ((new "prog").perform remoteOperations).walk = [0, 1, 2, 3] ∧
      ((new "prog").perform remoteOperations).IsTree := by
  have hids : (new "prog").HandedOut remoteOperations := by
    refine ⟨?_, ?_, ?_, ?_, ?_, ?_, ?_, trivial⟩ <;> decide +kernel
  exact ⟨hids, by decide +kernel, isTree_perform "prog" remoteOperations hids⟩

end ShellCompletion.CommandTree
