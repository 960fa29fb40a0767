import ShellCompletion.Proofs.CommandTree.WellFormed

/-!
# The walk through a tree

The walk passes every command exactly once. A command comes after those that enclose it,
and the subcommands of a command come in their order.
-/

namespace ShellCompletion.CommandTree.WellFormed

variable {tree : CommandTree} {id other parent child depth : Nat}

/-! ## Lines of commands -/

/-- The line of a subcommand is the subcommand and the line of its parent. -/
theorem lineage_eq (hwf : tree.WellFormed) (hparent : (tree.node id).parent = some parent) :
    tree.lineage id = id :: tree.lineage parent := by
  rw [lineage, hwf.ancestors_eq hparent, lineage]

/-- The line of a command on a line is the end of that line. -/
theorem lineage_suffix (hwf : tree.WellFormed) (hmem : id ∈ tree.lineage other) :
    tree.lineage id <:+ tree.lineage other := by
  induction other using Nat.strongRecOn with
  | _ other ih =>
    rcases List.mem_cons.mp hmem with rfl | hancestor
    · exact List.suffix_rfl
    · rcases hparent : (tree.node other).parent with _ | parent
      · rw [ancestors, hparent] at hancestor
        cases hancestor
      · rw [hwf.ancestors_eq hparent] at hancestor
        rw [hwf.lineage_eq hparent]
        exact (ih parent (hwf.parent_lt other parent hparent) hancestor).trans
          (List.suffix_cons other _)

/-- A command is on its line once, and so is every enclosing command. -/
theorem nodup_lineage (hwf : tree.WellFormed) (id : Nat) : (tree.lineage id).Nodup := by
  induction id using Nat.strongRecOn with
  | _ id ih =>
    rcases hparent : (tree.node id).parent with _ | parent
    · rw [lineage, ancestors, hparent]
      exact List.nodup_singleton id
    · have hlt := hwf.parent_lt id parent hparent
      rw [hwf.lineage_eq hparent, List.nodup_cons]
      refine ⟨fun hmem => ?_, ih parent hlt⟩
      have hle := le_of_mem_lineage hmem
      omega

/-- What stands behind a command on a line is the line of the enclosing commands. -/
theorem ancestors_of_lineage (hwf : tree.WellFormed) {before after : List Nat}
    (hlineage : tree.lineage id = before ++ other :: after) :
    tree.ancestors other = after := by
  have hmem : other ∈ tree.lineage id := by
    rw [hlineage]
    simp
  obtain ⟨between, hbetween⟩ := hwf.lineage_suffix hmem
  have hnodup := hwf.nodup_lineage id
  have hbefore : other ∉ before := fun h =>
    List.disjoint_of_nodup_append (hlineage ▸ hnodup) h List.mem_cons_self
  have hafter : other ∉ after :=
    (List.nodup_cons.mp (List.nodup_append.mp (hlineage ▸ hnodup)).2.1).1
  rw [lineage, hlineage] at hbetween
  exact ((List.append_cons_inj_of_notMem hbefore hafter).mp hbetween.symm).2.2.symm

/-- The program is on every line. -/
theorem root_mem_lineage (hwf : tree.WellFormed) (hid : id < tree.size) :
    0 ∈ tree.lineage id := by
  induction id using Nat.strongRecOn with
  | _ id ih =>
    rcases Nat.eq_zero_or_pos id with rfl | hpos
    · exact List.mem_cons_self
    · obtain ⟨parent, hlt, hparent⟩ := hwf.exists_parent hpos hid
      rw [hwf.lineage_eq hparent]
      exact List.mem_cons_of_mem _ (ih parent hlt (Nat.lt_trans hlt hid))

/-- The line from an enclosing command leads through one of its subcommands. -/
theorem exists_child_of_mem_ancestors (hwf : tree.WellFormed)
    (hancestor : id ∈ tree.ancestors other) :
    ∃ child ∈ tree.children id, child ∈ tree.lineage other := by
  induction other using Nat.strongRecOn with
  | _ other ih =>
    rcases hparent : (tree.node other).parent with _ | parent
    · rw [ancestors, hparent] at hancestor
      cases hancestor
    · rw [hwf.ancestors_eq hparent] at hancestor
      rcases List.mem_cons.mp hancestor with rfl | hancestor
      · exact ⟨other, (hwf.mem_children id other).mpr hparent, List.mem_cons_self⟩
      · obtain ⟨child, hchild, hmem⟩ := ih parent (hwf.parent_lt other parent hparent) hancestor
        refine ⟨child, hchild, ?_⟩
        rw [hwf.lineage_eq hparent]
        exact List.mem_cons_of_mem _ hmem

/-- A line leads through one subcommand of a command only. -/
theorem child_unique (hwf : tree.WellFormed) {first second : Nat}
    (hfirst : first ∈ tree.children parent) (hsecond : second ∈ tree.children parent)
    (hfirst_mem : first ∈ tree.lineage id) (hsecond_mem : second ∈ tree.lineage id) :
    first = second := by
  have hline : ∀ {a b : Nat}, a ∈ tree.children parent → b ∈ tree.children parent →
      tree.lineage a <:+ tree.lineage b → a = b := by
    intro a b ha hb hsuffix
    have hmem : a ∈ tree.lineage b := hsuffix.subset List.mem_cons_self
    rw [hwf.lineage_eq ((hwf.mem_children parent b).mp hb)] at hmem
    rcases List.mem_cons.mp hmem with heq | hmem
    · exact heq
    · have hle := le_of_mem_lineage hmem
      have hlt := hwf.lt_of_mem_children ha
      omega
  rcases List.suffix_or_suffix_of_suffix (hwf.lineage_suffix hfirst_mem)
    (hwf.lineage_suffix hsecond_mem) with h | h
  · exact hline hfirst hsecond h
  · exact (hline hsecond hfirst h).symm

/-! ## What the walk passes -/

/-- The walk from a command passes commands on whose lines it is. -/
theorem mem_lineage_of_mem_walkFrom (hwf : tree.WellFormed)
    (hmem : other ∈ tree.walkFrom depth id) : id ∈ tree.lineage other := by
  induction depth generalizing id with
  | zero =>
    rw [walkFrom, List.mem_singleton] at hmem
    exact hmem ▸ List.mem_cons_self
  | succ depth ih =>
    rw [walkFrom] at hmem
    rcases List.mem_cons.mp hmem with rfl | hmem
    · exact List.mem_cons_self
    · obtain ⟨child, hchild, hmem⟩ := List.mem_flatMap.mp hmem
      have hline := (hwf.lineage_suffix (ih hmem)).subset
      rw [hwf.lineage_eq ((hwf.mem_children id child).mp hchild)] at hline
      exact hline (List.mem_cons_of_mem _ List.mem_cons_self)

/-- The walk from a command passes every command on whose line it is, if it may go deep
enough. -/
theorem mem_walkFrom_of_mem_lineage (hwf : tree.WellFormed) (hmem : id ∈ tree.lineage other)
    (hdepth : other ≤ id + depth) : other ∈ tree.walkFrom depth id := by
  induction depth generalizing id with
  | zero =>
    have hle := le_of_mem_lineage hmem
    rw [walkFrom, List.mem_singleton]
    omega
  | succ depth ih =>
    rw [walkFrom]
    rcases List.mem_cons.mp hmem with rfl | hancestor
    · exact List.mem_cons_self
    · obtain ⟨child, hchild, hline⟩ := hwf.exists_child_of_mem_ancestors hancestor
      have hlt := hwf.lt_of_mem_children hchild
      exact List.mem_cons_of_mem _ (List.mem_flatMap.mpr ⟨child, hchild, ih hline (by omega)⟩)

/-- The walk from a command passes no command twice. -/
theorem nodup_walkFrom (hwf : tree.WellFormed) : (tree.walkFrom depth id).Nodup := by
  induction depth generalizing id with
  | zero => exact List.nodup_singleton id
  | succ depth ih =>
    rw [walkFrom, List.nodup_cons, List.nodup_flatMap]
    refine ⟨?_, fun child _ => ih, ?_⟩
    · intro hmem
      obtain ⟨child, hchild, hmem⟩ := List.mem_flatMap.mp hmem
      have hle := le_of_mem_lineage (hwf.mem_lineage_of_mem_walkFrom hmem)
      have hlt := hwf.lt_of_mem_children hchild
      omega
    · refine (hwf.nodup_children id).imp_of_mem ?_
      intro first second hfirst hsecond hne passed hpassed_first hpassed_second
      exact hne (hwf.child_unique hfirst hsecond (hwf.mem_lineage_of_mem_walkFrom hpassed_first)
        (hwf.mem_lineage_of_mem_walkFrom hpassed_second))

/-- The walk from the program passes exactly the commands of the tree, if it may go deep enough. -/
theorem mem_walkFrom_root (hwf : tree.WellFormed) (hdepth : tree.size ≤ depth) :
    id ∈ tree.walkFrom depth 0 ↔ id < tree.size := by
  constructor
  · intro hmem
    have hroot := hwf.mem_lineage_of_mem_walkFrom hmem
    by_contra hid
    rw [lineage, ancestors, node_of_size_le (Nat.le_of_not_lt hid)] at hroot
    have hpos := hwf.size_pos
    simp only [show (default : Node).parent = none from rfl, List.mem_singleton] at hroot
    omega
  · intro hid
    exact hwf.mem_walkFrom_of_mem_lineage (hwf.root_mem_lineage hid) (by omega)

/-- The walk passes exactly the commands of the tree. -/
theorem mem_walk (hwf : tree.WellFormed) : id ∈ tree.walk ↔ id < tree.size :=
  hwf.mem_walkFrom_root (Nat.le_refl _)

/-- The walk from the program passes every command exactly once, if it may go deep enough. -/
theorem walkFrom_root_perm (hwf : tree.WellFormed) (hdepth : tree.size ≤ depth) :
    (tree.walkFrom depth 0).Perm tree.ids := by
  refine (List.perm_ext_iff_of_nodup hwf.nodup_walkFrom List.nodup_range).mpr fun id => ?_
  rw [hwf.mem_walkFrom_root hdepth, List.mem_range]

/-- The walk passes every command exactly once. -/
theorem walk_perm (hwf : tree.WellFormed) : tree.walk.Perm tree.ids :=
  hwf.walkFrom_root_perm (Nat.le_refl _)

/-! ## The order of the walk -/

/-- The walk from a command passes the subcommands of every command on the way in their
order, if it may go deep enough. -/
theorem children_sublist_walkFrom (hwf : tree.WellFormed) (hmem : other ∈ tree.walkFrom depth id)
    (hdepth : tree.size ≤ id + depth) :
    (tree.children other).Sublist (tree.walkFrom depth id) := by
  induction depth generalizing id with
  | zero =>
    rw [walkFrom, List.mem_singleton] at hmem
    rw [children_of_size_le (by omega)]
    exact List.nil_sublist _
  | succ depth ih =>
    rw [walkFrom] at hmem ⊢
    rcases List.mem_cons.mp hmem with rfl | hmem
    · have hheads : ∀ children : List Nat,
          children.Sublist (children.flatMap (tree.walkFrom depth)) := by
        intro children
        induction children with
        | nil => exact List.Sublist.slnil
        | cons child rest ih =>
          have hhead : [child].Sublist (tree.walkFrom depth child) := by
            cases depth <;> simp [walkFrom]
          exact hhead.append ih
      exact (hheads _).cons _
    · obtain ⟨child, hchild, hmem⟩ := List.mem_flatMap.mp hmem
      have hlt := hwf.lt_of_mem_children hchild
      have hpart : (tree.walkFrom depth child).Sublist
          ((tree.children id).flatMap (tree.walkFrom depth)) :=
        List.sublist_flatten_of_mem (List.mem_map_of_mem hchild)
      exact ((ih hmem (by omega)).trans hpart).cons _

/-- The walk passes the subcommands of a command in their order. -/
theorem children_sublist_walk (hwf : tree.WellFormed) (id : Nat) :
    (tree.children id).Sublist tree.walk := by
  by_cases hid : id < tree.size
  · exact hwf.children_sublist_walkFrom (hwf.mem_walk.mpr hid) (by omega)
  · rw [children_of_size_le (Nat.le_of_not_lt hid)]
    exact List.nil_sublist _

end ShellCompletion.CommandTree.WellFormed
