import Mathlib.Data.List.Zip
import ShellCompletion.Document.Export
import ShellCompletion.Proofs.CommandTree.Walk

/-!
# Trees that differ in numbers only

Commands get their numbers in the order in which they are added. Two trees whose commands
agree under a renumbering are the same and have the same documents.
-/

namespace ShellCompletion.CommandTree

/-- Commands are the same in one direction if they are in the other. -/
theorem sameFrom_comm (tree other : CommandTree) (depth a b : Nat) :
    tree.sameFrom other depth a b = other.sameFrom tree depth b a := by
  induction depth generalizing a b with
  | zero => rfl
  | succ depth ih =>
    have hcommand : (tree.command a == other.command b) = (other.command b == tree.command a) :=
      BEq.comm
    have hlength : ((tree.children a).length == (other.children b).length) =
        ((other.children b).length == (tree.children a).length) := BEq.comm
    rw [sameFrom, sameFrom, hcommand, hlength, ← List.zip_swap (tree.children a), List.all_map]
    simp only [ih]
    rfl

/-- Where subcommands are renumbered, so is the walk. -/
theorem walkFrom_map {tree other : CommandTree} {number : Nat → Nat} (hwf : tree.WellFormed)
    (hchildren : ∀ id < tree.size, other.children (number id) = (tree.children id).map number)
    {id : Nat} (hid : id < tree.size) (depth : Nat) :
    other.walkFrom depth (number id) = (tree.walkFrom depth id).map number := by
  induction depth generalizing id with
  | zero => rfl
  | succ depth ih =>
    rw [walkFrom, walkFrom, hchildren id hid, List.map_cons, List.flatMap_map, List.map_flatMap]
    refine congrArg (number id :: ·) (List.flatMap_congr fun child hchild => ?_)
    exact ih (hwf.lt_size_of_mem hchild)

/-- Two trees agree under a renumbering of the first one's commands. -/
structure Renumbers (tree other : CommandTree) (number : Nat → Nat) : Prop where
  /-- The trees have equally many commands. -/
  size : other.size = tree.size
  /-- The program keeps its number. -/
  root : number 0 = 0
  /-- Commands declare the same. -/
  command : ∀ id < tree.size, other.command (number id) = tree.command id
  /-- Commands have the same subcommands. -/
  children : ∀ id < tree.size, other.children (number id) = (tree.children id).map number
  /-- Commands have the same enclosing commands. -/
  ancestors : ∀ id < tree.size, other.ancestors (number id) = (tree.ancestors id).map number

namespace Renumbers

variable {tree other : CommandTree} {number : Nat → Nat} {id : Nat}

/-- Commands that correspond are the same with everything below them. -/
theorem sameFrom (hnumber : tree.Renumbers other number) (hwf : tree.WellFormed)
    (hid : id < tree.size) (depth : Nat) :
    tree.sameFrom other depth id (number id) = true := by
  induction depth generalizing id with
  | zero => rfl
  | succ depth ih =>
    have hbelow : ((tree.children id).zip ((tree.children id).map number)).all
        (fun pair => tree.sameFrom other depth pair.1 pair.2) = true := by
      have hzip := List.zip_map' (f := fun child => child) (g := number) (l := tree.children id)
      rw [List.map_id'] at hzip
      rw [hzip, List.all_map, List.all_eq_true]
      exact fun child hchild => ih (hwf.lt_size_of_mem hchild)
    rw [CommandTree.sameFrom, hnumber.command id hid, hnumber.children id hid, Bool.and_eq_true]
    refine ⟨?_, hbelow⟩
    simp

/-- Trees that agree under a renumbering are the same, in both directions. -/
theorem same (hnumber : tree.Renumbers other number) (hwf : tree.WellFormed) :
    tree.same other = true ∧ other.same tree = true := by
  have hsame := hnumber.sameFrom hwf hwf.size_pos tree.size
  rw [hnumber.root] at hsame
  refine ⟨hsame, ?_⟩
  rw [CommandTree.same, hnumber.size, sameFrom_comm]
  exact hsame

/-- The walk through the second tree passes the commands in the same order. -/
theorem walk (hnumber : tree.Renumbers other number) (hwf : tree.WellFormed) :
    other.walk = tree.walk.map number := by
  have hfrom := walkFrom_map hwf hnumber.children hwf.size_pos tree.size
  rw [hnumber.root] at hfrom
  rw [CommandTree.walk, hnumber.size, hfrom, CommandTree.walk]

/-- A property holds of all commands of the second tree if it holds of all new numbers. -/
theorem forall_lt_size (hnumber : tree.Renumbers other number) (hwf : tree.WellFormed)
    (hother : other.WellFormed) {property : Nat → Prop} :
    (∀ id < other.size, property id) ↔ ∀ id < tree.size, property (number id) := by
  simp only [← hother.mem_walk, hnumber.walk hwf, List.forall_mem_map, hwf.mem_walk]

/-- Different commands get different numbers. -/
theorem injective (hnumber : tree.Renumbers other number) (hwf : tree.WellFormed)
    (hother : other.WellFormed) {first second : Nat} (hfirst : first < tree.size)
    (hsecond : second < tree.size) (hsame : number first = number second) : first = second := by
  have hnodup : (tree.walk.map number).Nodup := by
    rw [← hnumber.walk hwf]
    exact hother.nodup_walkFrom
  exact List.inj_on_of_nodup_map hnodup (hwf.mem_walk.mpr hfirst) (hwf.mem_walk.mpr hsecond) hsame

/-- Corresponding commands have the same line of commands. -/
theorem lineage (hnumber : tree.Renumbers other number) (hid : id < tree.size) :
    other.lineage (number id) = (tree.lineage id).map number := by
  rw [CommandTree.lineage, CommandTree.lineage, hnumber.ancestors id hid, List.map_cons]

/-- Corresponding commands have the same path. -/
theorem path (hnumber : tree.Renumbers other number) (hid : id < tree.size) :
    other.path (number id) = tree.path id := by
  rw [CommandTree.path, CommandTree.path, hnumber.lineage hid, ← List.map_reverse, List.map_map]
  refine List.map_congr_left fun ancestor hancestor => ?_
  have hle := le_of_mem_lineage (List.mem_reverse.mp hancestor)
  rw [Function.comp_apply, hnumber.command ancestor (by omega)]

/-- Equally many positions come before corresponding commands. -/
theorem slotsBefore (hnumber : tree.Renumbers other number) (hid : id < tree.size) :
    other.slotsBefore (number id) = tree.slotsBefore id := by
  rw [CommandTree.slotsBefore, CommandTree.slotsBefore, hnumber.ancestors id hid,
    List.foldr_map]
  refine List.foldr_ext _ _ _ fun ancestor hancestor count => ?_
  have hlt := lt_of_mem_ancestors hancestor
  rw [hnumber.command ancestor (by omega)]

/-- Corresponding commands have the same document. -/
theorem document (hnumber : tree.Renumbers other number) (hid : id < tree.size) :
    other.document (number id) = tree.document id := by
  have hslot : other.slotDocument (number id) = tree.slotDocument id := by
    rw [slotDocument, slotDocument, hnumber.command id hid, hnumber.children id hid,
      List.isEmpty_map]
  have hplace : ∀ place, other.positionalNumber (number id) place =
      tree.positionalNumber id place := by
    intro place
    rw [positionalNumber, positionalNumber, hnumber.slotsBefore hid]
  simp only [CommandTree.document, hnumber.command id hid, hslot, hplace, commandPath,
    hnumber.path hid]

/-- Trees that agree under a renumbering have the same documents. -/
theorem toDocuments (hnumber : tree.Renumbers other number) (hwf : tree.WellFormed) :
    other.toDocuments = tree.toDocuments := by
  rw [CommandTree.toDocuments, CommandTree.toDocuments, hnumber.walk hwf, List.map_map]
  exact List.map_congr_left fun id hid => hnumber.document (hwf.mem_walk.mp hid)

end Renumbers

end ShellCompletion.CommandTree
