import ShellCompletion.Proofs.CommandTree.Walk

/-!
# Commands with everything below them

The walk passes a command and then at once everything below it. So it is what a loop gives that
takes the next command from a stack and puts its subcommands there instead.
-/

namespace ShellCompletion.CommandTree

variable {tree : CommandTree} {id other depth : Nat}

/-- A command and everything below it, every command before its subcommands and these in
order. -/
def subtree (tree : CommandTree) (id : Nat) : List Nat :=
  tree.walkFrom tree.size id

/-- The walk as a loop of at most so many rounds: the next command is taken from a stack, and
its subcommands are put there instead. -/
def visit (tree : CommandTree) : Nat → List Nat → List Nat
  | 0, _ => []
  | _ + 1, [] => []
  | rounds + 1, id :: stack => id :: tree.visit rounds (tree.children id ++ stack)

namespace WellFormed

/-- How deep a walk may go does not matter once it is deep enough. -/
theorem walkFrom_eq_subtree (hwf : tree.WellFormed) (hdepth : tree.size ≤ id + depth) :
    tree.walkFrom depth id = tree.subtree id := by
  have hdeep : ∀ first second id, tree.size ≤ id + first → tree.size ≤ id + second →
      tree.walkFrom first id = tree.walkFrom second id := by
    intro first
    induction first with
    | zero =>
      intro second id hfirst _
      cases second with
      | zero => rfl
      | succ second => rw [walkFrom, walkFrom, children_of_size_le (by omega), List.flatMap_nil]
    | succ first ih =>
      intro second id hfirst hsecond
      cases second with
      | zero => rw [walkFrom, walkFrom, children_of_size_le (by omega), List.flatMap_nil]
      | succ second =>
        rw [walkFrom, walkFrom]
        refine congrArg (id :: ·) (List.flatMap_congr fun child hchild => ?_)
        have hlt := hwf.lt_of_mem_children hchild
        apply ih <;> omega
  apply hdeep <;> omega

/-- A subtree is its command followed by the subtrees of the subcommands. -/
theorem subtree_eq (hwf : tree.WellFormed) (id : Nat) :
    tree.subtree id = id :: (tree.children id).flatMap tree.subtree := by
  have hdeeper : tree.walkFrom (tree.size + 1) id = tree.subtree id :=
    hwf.walkFrom_eq_subtree (by omega)
  rw [← hdeeper, walkFrom]
  rfl

/-- A subtree has the commands on whose lines its command is. -/
theorem mem_subtree (hwf : tree.WellFormed) (hid : id < tree.size) :
    other ∈ tree.subtree id ↔ id ∈ tree.lineage other := by
  constructor
  · exact hwf.mem_lineage_of_mem_walkFrom
  · intro hmem
    have hother : other < tree.size := by
      rcases List.mem_cons.mp hmem with rfl | hancestor
      · exact hid
      · by_contra hsize
        rw [ancestors, node_of_size_le (Nat.le_of_not_lt hsize)] at hancestor
        cases hancestor
    exact hwf.mem_walkFrom_of_mem_lineage hmem (by omega)

/-- The walk passes a subtree in one piece. -/
theorem subtree_infix_walk (hwf : tree.WellFormed) (hid : id < tree.size) :
    tree.subtree id <:+: tree.walk := by
  induction id using Nat.strongRecOn with
  | _ id ih =>
    rcases Nat.eq_zero_or_pos id with rfl | hpos
    · exact List.infix_rfl
    · obtain ⟨parent, hlt, hparent⟩ := hwf.exists_parent hpos hid
      have hchild := (hwf.mem_children parent id).mpr hparent
      have hpiece : tree.subtree id <:+: (tree.children parent).flatMap tree.subtree :=
        List.infix_flatMap_of_mem hchild tree.subtree
      have hbelow : tree.subtree id <:+: tree.subtree parent := by
        rw [hwf.subtree_eq parent]
        exact hpiece.trans (List.suffix_cons parent _).isInfix
      exact hbelow.trans (ih parent hlt (Nat.lt_trans hlt hid))

/-- The walk passes everything below a command right after it. -/
theorem exists_walk_eq (hwf : tree.WellFormed) (hid : id < tree.size) :
    ∃ before below after, tree.walk = before ++ id :: below ++ after ∧
      ∀ other, other ∈ below ↔ id ∈ tree.ancestors other := by
  obtain ⟨before, after, hwalk⟩ := hwf.subtree_infix_walk hid
  have hnodup : (tree.subtree id).Nodup := hwf.nodup_walkFrom
  have hsubtree := hwf.subtree_eq id
  rw [hsubtree, List.nodup_cons] at hnodup
  refine ⟨before, (tree.children id).flatMap tree.subtree, after, ?_, fun other => ?_⟩
  · rw [← hwalk, hsubtree]
  · have hmem : other ∈ tree.subtree id ↔ id ∈ tree.lineage other := hwf.mem_subtree hid
    rw [hsubtree, List.mem_cons, lineage, List.mem_cons] at hmem
    constructor
    · intro hbelow
      have hne : id ≠ other := fun heq => hnodup.1 (heq ▸ hbelow)
      exact (hmem.mp (.inr hbelow)).resolve_left hne
    · intro hancestor
      have hlt := lt_of_mem_ancestors hancestor
      exact (hmem.mpr (.inr hancestor)).resolve_left (by omega)

/-- The loop passes the subtrees of the commands on its stack one after the other. -/
theorem visit_eq (hwf : tree.WellFormed) {rounds : Nat} {stack : List Nat}
    (hrounds : (stack.flatMap tree.subtree).length ≤ rounds) :
    tree.visit rounds stack = stack.flatMap tree.subtree := by
  induction rounds generalizing stack with
  | zero => rw [visit, List.length_eq_zero_iff.mp (Nat.le_zero.mp hrounds)]
  | succ rounds ih =>
    cases stack with
    | nil => rfl
    | cons id stack =>
      have hnext : (id :: stack).flatMap tree.subtree =
          id :: (tree.children id ++ stack).flatMap tree.subtree := by
        rw [List.flatMap_cons, hwf.subtree_eq, List.flatMap_append, List.cons_append]
      rw [hnext, List.length_cons] at hrounds
      rw [visit, hnext, ih (by omega)]

/-- The loop that starts with the program makes the walk, in as many rounds as there are
commands. -/
theorem visit_root (hwf : tree.WellFormed) : tree.visit tree.size [0] = tree.walk := by
  have hroot : [0].flatMap tree.subtree = tree.walk := by
    rw [List.flatMap_singleton]
    rfl
  have hlength : tree.walk.length = tree.size := by
    rw [hwf.walk_perm.length_eq, ids, List.length_range]
  rw [hwf.visit_eq (by rw [hroot]; omega), hroot]

end WellFormed
end ShellCompletion.CommandTree
