import ShellCompletion.CommandTree.Basic

/-!
# Numbers of positions

The positions of a command line are numbered from the program down, first the positional
arguments of a command and then its slot for subcommands. The numbers are not kept anywhere:
they follow from what the enclosing commands declare.
-/

namespace ShellCompletion.CommandTree

variable {tree : CommandTree} {id parent : Nat}

/-- The numbers of a command's positional arguments, in order. -/
def positionalNumbers (tree : CommandTree) (id : Nat) : List Nat :=
  (List.range (tree.command id).positionals.length).map (tree.positionalNumber id)

/-- The numbers of the positions that a command takes up: those of its positional arguments,
then the number of its slot for subcommands if it has one. -/
def ownNumbers (tree : CommandTree) (id : Nat) : List Nat :=
  tree.positionalNumbers id ++
    if (tree.command id).slot.isSome then [tree.subcommandNumber id] else []

/-- The numbers of all positions from the program down to a command. -/
def numbersTo (tree : CommandTree) (id : Nat) : List Nat :=
  (tree.lineage id).reverse.flatMap tree.ownNumbers

/-- The positional arguments of a command are numbered without gaps. -/
theorem positionalNumbers_eq (tree : CommandTree) (id : Nat) : tree.positionalNumbers id =
    List.range' (tree.slotsBefore id + 1) (tree.command id).positionals.length := by
  rw [positionalNumbers, List.range'_eq_map_range]
  refine List.map_congr_left fun place _ => ?_
  rw [positionalNumber]
  omega

/-- A command takes up positions without gaps, right after those of the enclosing commands. -/
theorem ownNumbers_eq (tree : CommandTree) (id : Nat) : tree.ownNumbers id =
    List.range' (tree.slotsBefore id + 1) (tree.command id).slotCount := by
  rw [ownNumbers, positionalNumbers_eq, Command.slotCount]
  split
  · have hnumber : tree.subcommandNumber id =
        tree.slotsBefore id + 1 + (tree.command id).positionals.length := by
      rw [subcommandNumber, positionalNumber]
      omega
    rw [List.range'_1_concat, hnumber]
  · simp

/-- The positions before a subcommand are those before its parent and those that its parent
takes up. -/
theorem slotsBefore_eq (hancestors : tree.ancestors id = parent :: tree.ancestors parent) :
    tree.slotsBefore id = (tree.command parent).slotCount + tree.slotsBefore parent := by
  rw [slotsBefore, hancestors, List.foldr_cons, slotsBefore]

/-- A command has no enclosing commands, or its parent and those of its parent. -/
theorem ancestors_cases (tree : CommandTree) (id : Nat) : tree.ancestors id = [] ∨
    ∃ parent < id, tree.ancestors id = parent :: tree.ancestors parent := by
  rw [ancestors]
  split
  · exact .inl rfl
  · rename_i parent _
    split
    · rename_i hlt
      exact .inr ⟨parent, hlt, rfl⟩
    · exact .inl rfl

/-- On the way to a command, the positions are numbered one, two, three and so on. -/
theorem numbersTo_eq (tree : CommandTree) (id : Nat) : tree.numbersTo id =
    List.range' 1 (tree.slotsBefore id + (tree.command id).slotCount) := by
  induction id using Nat.strongRecOn with
  | _ id ih =>
    rcases tree.ancestors_cases id with hroot | ⟨parent, hlt, hancestors⟩
    · rw [numbersTo, lineage, hroot, List.reverse_singleton, List.flatMap_singleton,
        ownNumbers_eq, slotsBefore, hroot, List.foldr_nil, Nat.zero_add, Nat.zero_add]
    · have hline : tree.numbersTo id = tree.numbersTo parent ++ tree.ownNumbers id := by
        rw [numbersTo, lineage, hancestors, List.reverse_cons, List.flatMap_append,
          List.flatMap_singleton]
        rfl
      have hslots := slotsBefore_eq hancestors
      rw [hline, ih parent hlt, ownNumbers_eq, hslots, Nat.add_comm (tree.slotsBefore parent),
        Nat.add_comm _ 1, List.range'_append_1]

end ShellCompletion.CommandTree
