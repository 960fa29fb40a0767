import Mathlib.Data.List.Forall2
import Mathlib.Data.List.Induction
import ShellCompletion.Proofs.CommandTree.Walk
import ShellCompletion.Proofs.Validation

/-!
# Paths to commands

A path is followed from the program down, at every command to the first subcommand that answers
to the next word. In a tree without faults only one subcommand answers to a word. A command is
then found by the paths on which every command on the way is written by one of its names, and by
no others.
-/

namespace ShellCompletion.CommandTree

variable {tree : CommandTree} {id parent child : Nat} {word : String} {words : List String}

/-! ## Paths of names -/

/-- The path of the program is its name. -/
theorem WellFormed.path_root (hwf : tree.WellFormed) : tree.path 0 = [tree.programName] := by
  rw [path, lineage, hwf.ancestors_root]
  rfl

/-- The path of a subcommand goes on from that of its parent. -/
theorem WellFormed.path_eq (hwf : tree.WellFormed)
    (hparent : (tree.node id).parent = some parent) :
    tree.path id = tree.path parent ++ [(tree.command id).name] := by
  rw [path, hwf.lineage_eq hparent, List.reverse_cons, List.map_append, path]
  rfl

/-- A path has as many names as the command has enclosing commands, and one more. -/
theorem length_path (tree : CommandTree) (id : Nat) :
    (tree.path id).length = (tree.lineage id).length := by
  rw [path, List.length_map, List.length_reverse]

/-- Every command has a path. -/
theorem path_ne_nil (tree : CommandTree) (id : Nat) : tree.path id ≠ [] := by
  rw [← List.length_pos_iff, length_path, lineage]
  simp

/-! ## Following a path -/

/-- A subcommand that is found is one of the command's and answers to the word. -/
theorem mem_of_findSubcommand? (hfind : tree.findSubcommand? id word = some child) :
    child ∈ tree.children id ∧ word ∈ (tree.command child).names := by
  refine ⟨List.mem_of_find?_eq_some hfind, ?_⟩
  simpa using List.find?_some hfind

/-- Of things in a row, the one that has a property is found if nothing that may stand before
it has the property. -/
theorem find?_of_pairwise {α : Type} {before : α → α → Prop} {list : List α}
    {property : α → Bool} (hpairs : list.Pairwise before) {item : α} (hitem : item ∈ list)
    (hholds : property item = true)
    (hearlier : ∀ other, before other item → property other = false) :
    list.find? property = some item := by
  obtain ⟨earlier, later, rfl⟩ := List.append_of_mem hitem
  refine List.find?_eq_some_iff_append.mpr ⟨hholds, earlier, later, rfl, fun other hother => ?_⟩
  have hbefore := (List.pairwise_append.mp hpairs).2.2 other hother item List.mem_cons_self
  simpa using hearlier other hbefore

/-- A longer path leads on from where the shorter one leads. -/
theorem findByPath?_append {path : List String} (hpath : path ≠ []) (word : String) :
    tree.findByPath? (path ++ [word]) =
      (tree.findByPath? path).bind fun id => tree.findSubcommand? id word := by
  cases path with
  | nil => exact absurd rfl hpath
  | cons program rest =>
    rw [List.cons_append, findByPath?, findByPath?]
    split
    · rw [List.foldlM_append]
      simp [Option.bind_eq_bind]
    · rfl

/-- Words lead from a command of the tree to one of the tree. -/
theorem WellFormed.lt_size_of_foldlM_findSubcommand? (hwf : tree.WellFormed) {start : Nat}
    (hstart : start < tree.size) (hfind : words.foldlM tree.findSubcommand? start = some id) :
    id < tree.size := by
  induction words generalizing start with
  | nil =>
    cases hfind
    exact hstart
  | cons word rest ih =>
    rw [List.foldlM_cons, Option.bind_eq_bind, Option.bind_eq_some_iff] at hfind
    obtain ⟨child, hchild, hrest⟩ := hfind
    exact ih (hwf.lt_size_of_mem (mem_of_findSubcommand? hchild).1) hrest

/-- Looking for a path gives a command of the tree. -/
theorem WellFormed.lt_size_of_findByPath? (hwf : tree.WellFormed) {path : List String}
    (hfind : tree.findByPath? path = some id) : id < tree.size := by
  cases path with
  | nil => cases hfind
  | cons program words =>
    rw [findByPath?] at hfind
    split at hfind
    · exact hwf.lt_size_of_foldlM_findSubcommand? hwf.size_pos hfind
    · cases hfind

/-! ## The way down to a command -/

/-- The commands on the way from the program down to a command, without the program. -/
def descent (tree : CommandTree) (id : Nat) : List Nat :=
  (tree.lineage id).reverse.tail

namespace WellFormed

/-- No way leads to the program. -/
theorem descent_root (hwf : tree.WellFormed) : tree.descent 0 = [] := by
  rw [descent, lineage, hwf.ancestors_root]
  rfl

/-- The way to a subcommand is that to its parent and one step. -/
theorem descent_eq (hwf : tree.WellFormed) (hparent : (tree.node id).parent = some parent) :
    tree.descent id = tree.descent parent ++ [id] := by
  have hline : (tree.lineage parent).reverse ≠ [] := by simp [lineage]
  rw [descent, hwf.lineage_eq hparent, List.reverse_cons, List.tail_append_of_ne_nil hline,
    descent]

end WellFormed

/-! ## Every way of writing a path -/

/-- Words that write the way down to a command: each is the name or one of the other names of
the command that it stands for. -/
def Writes (tree : CommandTree) (words : List String) (id : Nat) : Prop :=
  List.Forall₂ (fun word step => word ∈ (tree.command step).names) words (tree.descent id)

/-- The last word of a way stands for the last command, and the others for the way to its
parent. -/
theorem WellFormed.writes_concat (hwf : tree.WellFormed)
    (hparent : (tree.node id).parent = some parent) :
    tree.Writes (words ++ [word]) id ↔
      tree.Writes words parent ∧ word ∈ (tree.command id).names := by
  rw [Writes, hwf.descent_eq hparent, ← List.forall₂_reverse_iff, List.reverse_concat,
    List.reverse_concat, List.forall₂_cons, List.forall₂_reverse_iff, and_comm, Writes]

/-- A word finds the subcommand of a command without faults that answers to it. -/
theorem findSubcommand?_eq_some_iff {strict : Bool}
    (hsound : tree.commandFault? strict parent = none) :
    tree.findSubcommand? parent word = some child ↔
      child ∈ tree.children parent ∧ word ∈ (tree.command child).names := by
  refine ⟨mem_of_findSubcommand?, fun ⟨hchild, hword⟩ => ?_⟩
  have hnames := (List.nodup_flatMap.mp (nodup_names_children hsound)).2
  refine find?_of_pairwise hnames hchild (by simpa using hword) fun sibling hdisjoint => ?_
  simpa using fun hmem => hdisjoint hmem hword

/-- In a tree without faults, the words that lead to a command write the way down to it. -/
theorem WellFormed.findByPath?_iff_writes (hwf : tree.WellFormed) {strict : Bool}
    (hsound : ∀ id < tree.size, tree.commandFault? strict id = none) (hid : id < tree.size) :
    tree.findByPath? (tree.programName :: words) = some id ↔ tree.Writes words id := by
  induction words using List.reverseRecOn generalizing id with
  | nil =>
    rw [Writes, List.forall₂_nil_left_iff, findByPath?, if_pos (beq_self_eq_true _)]
    rcases Nat.eq_zero_or_pos id with rfl | hpos
    · exact iff_of_true rfl hwf.descent_root
    · obtain ⟨parent, -, hparent⟩ := hwf.exists_parent hpos hid
      rw [hwf.descent_eq hparent]
      refine iff_of_false (fun hfind => ?_) (by simp)
      cases hfind
      exact Nat.lt_irrefl _ hpos
  | append_singleton words word ih =>
    rw [← List.cons_append, findByPath?_append (List.cons_ne_nil _ _), Option.bind_eq_some_iff]
    rcases Nat.eq_zero_or_pos id with rfl | hpos
    · -- The program is the subcommand of no command, and no way leads to it.
      rw [Writes, hwf.descent_root]
      refine iff_of_false ?_ (by simp)
      rintro ⟨holder, -, hfind⟩
      exact Nat.not_lt_zero _ (hwf.lt_of_mem_children (mem_of_findSubcommand? hfind).1)
    · obtain ⟨parent, hlt, hparent⟩ := hwf.exists_parent hpos hid
      have hsize : parent < tree.size := Nat.lt_trans hlt hid
      have hchild := (hwf.mem_children parent id).mpr hparent
      rw [hwf.writes_concat hparent, ← ih hsize]
      constructor
      · rintro ⟨holder, hpath, hfind⟩
        obtain ⟨hholds, hword⟩ := mem_of_findSubcommand? hfind
        rw [hwf.mem_children, hparent] at hholds
        cases hholds
        exact ⟨hpath, hword⟩
      · rintro ⟨hpath, hword⟩
        exact ⟨parent, hpath, (findSubcommand?_eq_some_iff (hsound parent hsize)).mpr
          ⟨hchild, hword⟩⟩

/-- In a tree that the checks accept, a command is found by all words that write the way down to
it behind the name of the program, and by no others. So no two commands share a path. -/
theorem findByPath?_eq_some_iff_writes (hbuilt : tree.Built) {strict : Bool}
    (hvalid : (tree.checkStructure strict).outcome.2 = .ok ()) :
    (∀ id < tree.size, ∀ words,
      tree.findByPath? (tree.programName :: words) = some id ↔ tree.Writes words id) ∧
    ∀ id < tree.size, ∀ other < tree.size, ∀ words,
      tree.Writes words id → tree.Writes words other → id = other := by
  have hsound := checkStructure_eq_ok.mp hvalid
  have hfinds : ∀ id < tree.size, ∀ words,
      tree.findByPath? (tree.programName :: words) = some id ↔ tree.Writes words id :=
    fun id hid words => hbuilt.wellFormed.findByPath?_iff_writes hsound hid
  refine ⟨hfinds, fun id hid other hother words hwrites hwrites' => ?_⟩
  have hfind := (hfinds id hid words).mpr hwrites
  rw [(hfinds other hother words).mpr hwrites'] at hfind
  exact (Option.some.inj hfind).symm

/-- A program with a subcommand and one below it, all subcommands with another name. -/
def abbreviated : CommandTree :=
  ⟨#[{ command := { name := "prog", slot := some {} }, children := [1] },
    { command := { name := "remote", aliases := ["r"], slot := some {} }, parent := some 0,
      children := [2] },
    { command := { name := "remove", aliases := ["rm", "r"] }, parent := some 1 }]⟩

/-- Operations build the tree. -/
theorem built_abbreviated : abbreviated.Built := by
  have halias : ∀ aliases : List String,
      Command.IsDescription fun command => { command with aliases := aliases } :=
    fun _ _ => ⟨rfl, rfl, rfl⟩
  have hremote := (Built.new "prog").step (.addSubcommand 0 "remote" "" Nat.one_pos rfl)
  have hnamed := hremote.step (.describe 1 _ (halias ["r"]) (by decide))
  have hremove := hnamed.step (.addSubcommand 1 "remove" "" (by decide) rfl)
  exact hremove.step (.describe 2 _ (halias ["rm", "r"]) (by decide))

/-- A command is found by its other name below another name of its parent. -/
theorem findByPath?_eq_some_iff_writes_abbreviated :
    (abbreviated.checkStructure true).outcome.2 = .ok () ∧ abbreviated.Writes ["r", "r"] 2 ∧
      abbreviated.findByPath? ["prog", "r", "r"] = some 2 := by
  have hvalid : (abbreviated.checkStructure true).outcome.2 = .ok () :=
    checkStructure_eq_ok.mpr (by decide +kernel)
  have hwrites : abbreviated.Writes ["r", "r"] 2 := by
    have hdescent : abbreviated.descent 2 = [1, 2] := by decide +kernel
    rw [Writes, hdescent]
    exact .cons (by decide) (.cons (by decide) .nil)
  obtain ⟨hfinds, -⟩ := findByPath?_eq_some_iff_writes built_abbreviated hvalid
  exact ⟨hvalid, hwrites, (hfinds 2 (by decide) _).mpr hwrites⟩

end ShellCompletion.CommandTree
