import ShellCompletion.Proofs.CommandTree.Renumbering
import ShellCompletion.Scope.Basic

/-!
# Counterparts

Two trees may be the same although their commands were added in different orders. Every command
of the one has a counterpart in the other, which is reached from the program by the same places,
and counterparts renumber the commands.
-/

namespace ShellCompletion.CommandTree

variable {tree other : CommandTree} {id parent child place depth : Nat}

/-! ## Places -/

/-- The place of a subcommand is the one at which its parent holds it. -/
theorem WellFormed.place_eq (hwf : tree.WellFormed)
    (hplace : (tree.children parent)[place]? = some child) : tree.place child = place := by
  have hparent := (hwf.mem_children parent child).mp (List.mem_of_getElem? hplace)
  obtain ⟨hlt, hget⟩ := List.getElem?_eq_some_iff.mp hplace
  rw [CommandTree.place, hparent]
  change (tree.children parent).idxOf child = place
  rw [← hget]
  exact (hwf.nodup_children parent).idxOf_getElem place hlt

/-- Every command but the program is held by an earlier one at some place. -/
theorem WellFormed.exists_place (hwf : tree.WellFormed) (hpos : 0 < id) (hid : id < tree.size) :
    ∃ parent < id, ∃ place : Nat, (tree.children parent)[place]? = some id := by
  obtain ⟨parent, hlt, hparent⟩ := hwf.exists_parent hpos hid
  have hmem := (hwf.mem_children parent id).mpr hparent
  exact ⟨parent, hlt, List.mem_iff_getElem?.mp hmem⟩

/-- The command of another tree that is reached from the program by the same places. -/
def counterpart (tree other : CommandTree) (id : Nat) : Nat :=
  match (tree.node id).parent with
  | none => 0
  | some parent =>
    if parent < id then (other.children (tree.counterpart other parent))[tree.place id]?.getD 0
    else 0
termination_by id

/-- The counterpart of the program is the program. -/
theorem WellFormed.counterpart_root (hwf : tree.WellFormed) (other : CommandTree) :
    tree.counterpart other 0 = 0 := by
  rw [counterpart, hwf.parent_root]

/-- The counterpart of a subcommand has its place in the counterpart of its parent. -/
theorem WellFormed.counterpart_eq (hwf : tree.WellFormed) (other : CommandTree)
    (hplace : (tree.children parent)[place]? = some child) :
    tree.counterpart other child =
      (other.children (tree.counterpart other parent))[place]?.getD 0 := by
  have hparent := (hwf.mem_children parent child).mp (List.mem_of_getElem? hplace)
  rw [counterpart, hparent]
  change (if _ then _ else _) = _
  rw [if_pos (hwf.parent_lt child parent hparent), hwf.place_eq hplace]

/-! ## Trees that are the same -/

/-- Commands that are the same down to a depth declare the same and have as many subcommands,
which are the same one by one. -/
theorem sameFrom_succ {a b : Nat} : tree.sameFrom other (depth + 1) a b = true ↔
    tree.command a = other.command b ∧
      (tree.children a).length = (other.children b).length ∧
        ∀ place c d : Nat, (tree.children a)[place]? = some c →
          (other.children b)[place]? = some d → tree.sameFrom other depth c d = true := by
  rw [sameFrom]
  simp only [Bool.and_eq_true, beq_iff_eq, and_assoc, List.all_eq_true, Prod.forall]
  refine and_congr_right fun _ => and_congr_right fun _ => ?_
  constructor
  · intro hbelow place c d hc hd
    refine hbelow c d (List.mem_iff_getElem?.mpr ⟨place, ?_⟩)
    exact List.getElem?_zip_eq_some.mpr ⟨hc, hd⟩
  · intro hbelow c d hmem
    obtain ⟨place, hplace⟩ := List.mem_iff_getElem?.mp hmem
    obtain ⟨hc, hd⟩ := List.getElem?_zip_eq_some.mp hplace
    exact hbelow place c d hc hd

section Same

variable (hsame : tree.same other = true) (hwf : tree.WellFormed)
include hsame hwf

/-- A command is the same as its counterpart, as deep as the tree may go below it. -/
theorem exists_sameFrom_counterpart (hid : id < tree.size) :
    ∃ depth, tree.size ≤ id + (depth + 1) ∧
      tree.sameFrom other (depth + 1) id (tree.counterpart other id) = true := by
  induction id using Nat.strongRecOn with
  | _ id ih =>
    rcases Nat.eq_zero_or_pos id with rfl | hpos
    · obtain ⟨depth, hdepth⟩ := Nat.exists_eq_add_one.mpr hwf.size_pos
      refine ⟨depth, by omega, ?_⟩
      rw [hwf.counterpart_root, ← hdepth]
      exact hsame
    · obtain ⟨parent, hlt, place, hplace⟩ := hwf.exists_place hpos hid
      obtain ⟨depth, hdepth, hparent⟩ := ih parent hlt (Nat.lt_trans hlt hid)
      obtain ⟨-, hlength, hbelow⟩ := sameFrom_succ.mp hparent
      -- The counterpart of the parent has a subcommand at the same place.
      have hthere : place < (other.children (tree.counterpart other parent)).length := by
        rw [← hlength]
        exact (List.getElem?_eq_some_iff.mp hplace).1
      have hcounterpart : (other.children (tree.counterpart other parent))[place]? =
          some (tree.counterpart other id) := by
        rw [hwf.counterpart_eq other hplace, List.getElem?_eq_getElem hthere]
        rfl
      obtain ⟨below, rfl⟩ : ∃ below, depth = below + 1 := ⟨depth - 1, by omega⟩
      exact ⟨below, by omega, hbelow place id _ hplace hcounterpart⟩

/-- A command and its counterpart declare the same. -/
theorem command_counterpart (hid : id < tree.size) :
    other.command (tree.counterpart other id) = tree.command id := by
  obtain ⟨depth, -, hsameFrom⟩ := exists_sameFrom_counterpart hsame hwf hid
  exact (sameFrom_succ.mp hsameFrom).1.symm

/-- The subcommands of a counterpart are the counterparts of the subcommands. -/
theorem children_counterpart (hid : id < tree.size) :
    other.children (tree.counterpart other id) =
      (tree.children id).map (tree.counterpart other) := by
  obtain ⟨depth, -, hsameFrom⟩ := exists_sameFrom_counterpart hsame hwf hid
  obtain ⟨-, hlength, -⟩ := sameFrom_succ.mp hsameFrom
  refine List.ext_getElem (by rw [List.length_map, hlength]) fun place hother hmap => ?_
  have hplace : place < (tree.children id).length := by
    rw [hlength]
    exact hother
  rw [List.getElem_map, hwf.counterpart_eq other (List.getElem?_eq_getElem hplace),
    List.getElem?_eq_getElem hother]
  rfl

variable (hwf_other : other.WellFormed)
include hwf_other

/-- The commands that enclose a counterpart are the counterparts of those that enclose the
command. -/
theorem ancestors_counterpart (hid : id < tree.size) :
    other.ancestors (tree.counterpart other id) =
      (tree.ancestors id).map (tree.counterpart other) := by
  induction id using Nat.strongRecOn with
  | _ id ih =>
    rcases Nat.eq_zero_or_pos id with rfl | hpos
    · rw [hwf.counterpart_root, hwf_other.ancestors_root, hwf.ancestors_root, List.map_nil]
    · obtain ⟨parent, hlt, hparent⟩ := hwf.exists_parent hpos hid
      have hparent_lt : parent < tree.size := Nat.lt_trans hlt hid
      have hmem : tree.counterpart other id ∈
          other.children (tree.counterpart other parent) := by
        rw [children_counterpart hsame hwf hparent_lt]
        exact List.mem_map_of_mem ((hwf.mem_children parent id).mpr hparent)
      have hparent_other := (hwf_other.mem_children _ _).mp hmem
      rw [hwf_other.ancestors_eq hparent_other, hwf.ancestors_eq hparent, List.map_cons,
        ih parent hlt hparent_lt]

/-- Trees that are the same have equally many commands. -/
theorem size_eq_of_same : other.size = tree.size := by
  have hwalk := walkFrom_map hwf (fun id hid => children_counterpart hsame hwf hid) hwf.size_pos
    (max tree.size other.size)
  rw [hwf.counterpart_root] at hwalk
  have hlength := congrArg List.length hwalk
  rw [List.length_map, (hwf_other.walkFrom_root_perm (Nat.le_max_right _ _)).length_eq,
    (hwf.walkFrom_root_perm (Nat.le_max_left _ _)).length_eq] at hlength
  simpa [ids] using hlength

/-- Trees that are the same agree under a renumbering: every command gets the number of its
counterpart. -/
theorem renumbers_counterpart : tree.Renumbers other (tree.counterpart other) where
  size := size_eq_of_same hsame hwf hwf_other
  root := hwf.counterpart_root other
  command _ hid := command_counterpart hsame hwf hid
  children _ hid := children_counterpart hsame hwf hid
  ancestors _ hid := ancestors_counterpart hsame hwf hwf_other hid

end Same

end ShellCompletion.CommandTree
