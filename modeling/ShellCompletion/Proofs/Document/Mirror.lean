import ShellCompletion.Proofs.Document.Reading

/-!
# The tree of the documents read so far

While documents are read, shorter paths first, every command of the tree is the one that the
document with its number makes, in the place that the path of the document says. This is so
whatever the order of the documents, as long as parent paths are written with names: where they
could go by an alias, the command that is found need not be the one whose path they repeat.
-/

namespace ShellCompletion

namespace CommandTree

variable {tree : CommandTree} {id other parent : Nat}

/-! ## Paths in a tree -/

/-- A command is found below its parent by its name. -/
theorem Described.findSubcommand?_name (htree : tree.Described)
    (hparent : (tree.node id).parent = some parent) :
    tree.findSubcommand? parent (tree.command id).name = some id := by
  have hchild := (htree.built.wellFormed.mem_children parent id).mpr hparent
  exact find?_name (htree.name_notMem parent) hchild

/-- The path of a command leads to it. -/
theorem Described.findByPath?_path (htree : tree.Described) (hid : id < tree.size) :
    tree.findByPath? (tree.path id) = some id := by
  have hwf := htree.built.wellFormed
  induction id using Nat.strongRecOn with
  | _ id ih =>
    rcases Nat.eq_zero_or_pos id with rfl | hpos
    · rw [hwf.path_root, findByPath?]
      simp
    · obtain ⟨parent, hlt, hparent⟩ := hwf.exists_parent hpos hid
      rw [hwf.path_eq hparent, findByPath?_append (path_ne_nil tree parent),
        ih parent hlt (by omega), Option.bind_some, htree.findSubcommand?_name hparent]

/-- Commands are told apart by their paths. -/
theorem Described.path_injective (htree : tree.Described) (hid : id < tree.size)
    (hother : other < tree.size) (hpath : tree.path id = tree.path other) : id = other := by
  have hfind := htree.findByPath?_path hid
  rw [hpath, htree.findByPath?_path hother] at hfind
  exact (Option.some.inj hfind).symm

/-- The path of a subcommand leads through that of its parent. -/
theorem WellFormed.dropLast_path (hwf : tree.WellFormed)
    (hparent : (tree.node id).parent = some parent) :
    (tree.path id).dropLast = tree.path parent := by
  rw [hwf.path_eq hparent, List.dropLast_concat]

/-- A path is written with names: where it goes through an alias, that is also the name of a
command there. -/
def IsNamed (tree : CommandTree) (names : List String) : Prop :=
  ∀ other < tree.size, ∀ word ∈ (tree.command other).aliases,
    (tree.path other).dropLast ++ [word] <+: names →
      ∃ named < tree.size, tree.path named = (tree.path other).dropLast ++ [word]

/-- A path that is written with names leads to the command whose path it is. -/
theorem Described.path_of_findByPath? (htree : tree.Described) {names : List String}
    (hnamed : tree.IsNamed names) (hfind : tree.findByPath? names = some id) :
    tree.path id = names := by
  have hwf := htree.built.wellFormed
  induction names using List.reverseRecOn generalizing id with
  | nil => cases hfind
  | append_singleton names name ih =>
    rcases eq_or_ne names [] with rfl | hne
    · rw [List.nil_append, findByPath?] at hfind
      split at hfind
      · rename_i hprogram
        cases hfind
        rw [hwf.path_root, ← beq_iff_eq.mp hprogram, List.nil_append]
      · cases hfind
    · rw [findByPath?_append hne, Option.bind_eq_some_iff] at hfind
      obtain ⟨parent, hparent, hchild⟩ := hfind
      obtain ⟨hmem, hname⟩ := mem_of_findSubcommand? hchild
      have hholds := (hwf.mem_children parent id).mp hmem
      have hpath : tree.path parent = names := by
        refine ih (fun other hother word hword hbegins => ?_) hparent
        exact hnamed other hother word hword (hbegins.trans (List.prefix_append _ _))
      rcases List.mem_cons.mp hname with hname | halias
      · rw [hwf.path_eq hholds, hpath, hname]
      · -- The alias is the name of a command, which would be found in place of this one.
        have hway : (tree.path id).dropLast = names := (hwf.dropLast_path hholds).trans hpath
        obtain ⟨named, hlt, hsame⟩ := hnamed id (hwf.lt_size_of_mem hmem) name halias
          (hway ▸ List.prefix_rfl)
        rw [hway] at hsame
        have hfound := htree.findByPath?_path hlt
        rw [hsame, findByPath?_append hne, hparent, Option.bind_some, hchild] at hfound
        rw [Option.some.inj hfound, hsame]

/-- The subcommands of a command take the numbers after its own positional arguments. -/
theorem WellFormed.slotsBefore_child (hwf : tree.WellFormed)
    (hparent : (tree.node id).parent = some parent) :
    tree.slotsBefore id = tree.subcommandNumber parent := by
  have hchild := (hwf.mem_children parent id).mpr hparent
  have hslot := hwf.slot_isSome parent (List.ne_nil_of_mem hchild)
  rw [slotsBefore_eq (hwf.ancestors_eq hparent), Command.slotCount, hslot, subcommandNumber,
    positionalNumber]
  simp only [if_true]
  omega

/-- A count that gives the number of the slot for the path of every earlier command gives the
positions before a command for the path of its parent. -/
theorem WellFormed.slotsBefore_eq_of_count (hwf : tree.WellFormed) {count : List String → Nat}
    (hzero : count [] = 0)
    (hcount : ∀ earlier < id, tree.subcommandNumber earlier = count (tree.path earlier))
    (hid : id < tree.size) : tree.slotsBefore id = count (tree.path id).dropLast := by
  rcases Nat.eq_zero_or_pos id with rfl | hpos
  · rw [hwf.path_root, hwf.slotsBefore_root]
    exact hzero.symm
  · obtain ⟨parent, hlt, hparent⟩ := hwf.exists_parent hpos hid
    rw [hwf.dropLast_path hparent, hwf.slotsBefore_child hparent, hcount parent hlt]

end CommandTree

namespace CommandDocument

open CommandTree

variable {tree : CommandTree} {id parent : Nat} {document : CommandDocument}
  {command other : Command}

/-! ## Documents of the same parent -/

/-- The documents whose commands belong below the one of a path, in order. -/
def below (documents : List CommandDocument) (parent : List String) : List CommandDocument :=
  documents.filter (·.parentPath = parent)

/-- The documents below a path are those whose parent path it is. -/
theorem mem_below {documents : List CommandDocument} {parent : List String} :
    document ∈ below documents parent ↔ document ∈ documents ∧ document.parentPath = parent := by
  rw [below, List.mem_filter, decide_eq_true_eq]

/-- The first document is below its parent path. -/
theorem below_cons (document : CommandDocument) (documents : List CommandDocument)
    (parent : List String) : below (document :: documents) parent =
      if document.parentPath = parent then document :: below documents parent
      else below documents parent := by
  rw [below, List.filter_cons]
  simp only [decide_eq_true_eq, below]

/-- The documents below a path keep their order. -/
theorem below_append (documents others : List CommandDocument) (parent : List String) :
    below (documents ++ others) parent = below documents parent ++ below others parent :=
  List.filter_append documents others

/-! ## The command of a document -/

/-- A command as it is once it has subcommands, which bring along a slot. -/
def withSlot (command : Command) : Command :=
  { command with slot := some (command.slot.getD {}) }

/-- A document declares a command of a tree. -/
structure Declares (document : CommandDocument) (tree : CommandTree) (id : Nat) : Prop where
  /-- The path of the document is that of the command. -/
  path_eq : tree.path id = document.path
  /-- The document makes the command, up to the slot that subcommands bring along. -/
  makes : ∃ command, document.Makes command ∧
    tree.command id = if tree.children id = [] then command else withSlot command
  /-- The positional arguments have the numbers of their places. -/
  numbered : document.IsNumberedFrom (tree.slotsBefore id)

/-- A declared command has the name and the aliases of the document and as many positional
arguments. -/
theorem Declares.names (hdeclares : document.Declares tree id) :
    (tree.command id).name = document.name ∧ (tree.command id).aliases = document.aliases ∧
      (tree.command id).positionals.length = document.positionals.length := by
  obtain ⟨command, hmakes, hcommand⟩ := hdeclares.makes
  have hnames := hmakes.names
  rw [hcommand]
  split
  · exact hnames
  · exact hnames

/-- Commands go on being declared when another one is attached. -/
theorem Declares.attach (hdeclares : document.Declares tree id) (hwf : tree.WellFormed)
    (hid : id < tree.size) (hparent : parent < tree.size) :
    document.Declares (tree.attach parent command) id := by
  have hextends : tree.Extends (tree.attach parent command) := extends_attach hparent command
  refine ⟨(hextends.path_eq hid).trans hdeclares.path_eq, ?_, ?_⟩
  · obtain ⟨made, hmakes, hcommand⟩ := hdeclares.makes
    refine ⟨made, hmakes, ?_⟩
    rw [command_attach hparent, if_neg (Nat.ne_of_lt hid), children_attach hparent]
    by_cases hsame : id = parent
    · -- The parent gets its slot now, unless it has subcommands already.
      rw [← hsame, if_pos rfl, if_pos rfl, if_neg (by simp), hcommand]
      split
      · rfl
      · rfl
    · rw [if_neg hsame, if_neg hsame, hcommand]
  · rw [hextends.slotsBefore_eq hwf hid]
    exact hdeclares.numbered

/-- A document declares the command that was attached for it. -/
theorem Makes.declares_attach (hmakes : document.Makes command) (hwf : tree.WellFormed)
    (hparent : parent < tree.size) (hempty : document.parentPath ≠ [])
    (hpath : tree.path parent = document.parentPath)
    (hnumbered : document.IsNumberedFrom (tree.subcommandNumber parent)) :
    document.Declares (tree.attach parent command) tree.size := by
  have hcommand : (tree.attach parent command).command tree.size = command := by
    rw [command_attach hparent, if_pos rfl]
  have hnone : (tree.attach parent command).children tree.size = [] := by
    rw [children_attach hparent, if_neg (Nat.ne_of_gt hparent),
      children_of_size_le (Nat.le_refl _)]
  refine ⟨?_, ⟨command, hmakes, ?_⟩, ?_⟩
  · rw [path_attach hparent, hpath, hmakes.names.1,
      ← CommandDocument.path_eq (CommandDocument.path_ne_nil hempty)]
  · rw [hnone, if_pos rfl, hcommand]
  · rw [hwf.slotsBefore_attach hparent]
    exact hnumbered

end CommandDocument

namespace CommandTree

variable {tree after : CommandTree} {id parent : Nat} {document : CommandDocument}
  {done rest : List CommandDocument}

/-! ## Reading documents one after the other -/

/-- The commands of a tree are those that documents declare, in their order. -/
structure Mirrors (tree : CommandTree) (done : List CommandDocument) : Prop where
  /-- Documents describe the tree. -/
  described : tree.Described
  /-- There are as many commands as documents. -/
  size_eq : tree.size = done.length
  /-- Every document declares the command with its number. -/
  declares : ∀ (id : Nat) (document : CommandDocument), done[id]? = some document →
    document.Declares tree id

/-- Every command that mirrors a document is one of the tree. -/
theorem Mirrors.lt_size (hmirrors : tree.Mirrors done) (hid : done[id]? = some document) :
    id < tree.size := by
  rw [hmirrors.size_eq]
  exact (List.getElem?_eq_some_iff.mp hid).1

/-- Every command of the tree mirrors a document. -/
theorem Mirrors.exists_document (hmirrors : tree.Mirrors done) (hid : id < tree.size) :
    ∃ document ∈ done, done[id]? = some document ∧ document.Declares tree id := by
  rw [hmirrors.size_eq] at hid
  have hget := List.getElem?_eq_getElem hid
  exact ⟨done[id], List.getElem_mem hid, hget, hmirrors.declares id _ hget⟩

/-- Every document is mirrored by a command of the tree. -/
theorem Mirrors.exists_id (hmirrors : tree.Mirrors done) (hmem : document ∈ done) :
    ∃ id < tree.size, done[id]? = some document ∧ document.Declares tree id := by
  obtain ⟨id, hid⟩ := List.mem_iff_getElem?.mp hmem
  exact ⟨id, hmirrors.lt_size hid, hid, hmirrors.declares id document hid⟩

/-- The tree that reading starts from mirrors the document of the program. -/
theorem Mirrors.program {name : String} (hpath : document.path = [name])
    (hstart : document.applyTo 0 (CommandTree.new name) = .ok tree) : tree.Mirrors [document] := by
  have hword := CommandDocument.isWord_of_mem_path (hpath ▸ List.mem_singleton_self name)
  have hdescribed : tree.Described := CommandDocument.described_of_applyTo (.new hword) rfl hstart
  have hwf := hdescribed.built.wellFormed
  obtain ⟨command, hmakes, hnumbered, rfl⟩ := (CommandDocument.applyTo_new_eq_ok hpath).mp hstart
  have hcommand : ((CommandTree.new name).modify 0 fun _ => command).command 0 = command :=
    command_modify_self Nat.one_pos
  refine ⟨hdescribed, by simp, fun id other hid => ?_⟩
  obtain ⟨rfl, rfl⟩ : id = 0 ∧ document = other := by
    rw [List.getElem?_singleton] at hid
    split at hid
    · exact ⟨by omega, Option.some.inj hid⟩
    · cases hid
  refine ⟨?_, ⟨command, hmakes, ?_⟩, ?_⟩
  · rw [hwf.path_root, programName, hcommand, hmakes.names.1, CommandDocument.name, hpath]
    rfl
  · rw [children_modify, hcommand]
    rfl
  · rw [hwf.slotsBefore_root]
    exact hnumbered

/-- The tree after a document was read mirrors that document as well. -/
theorem Mirrors.addTo (hmirrors : tree.Mirrors done)
    (hnamed : tree.IsNamed document.parentPath)
    (hadd : CommandDocument.addTo tree document = .ok after) :
    after.Mirrors (done ++ [document]) := by
  have hwf := hmirrors.described.built.wellFormed
  have hdescribed := CommandDocument.described_of_addTo hmirrors.described hadd
  obtain ⟨hempty, parent, hparent, -, command, hmakes, hnumbered, rfl⟩ :=
    (CommandDocument.addTo_eq_ok_attach hwf).mp hadd
  have hlt := hwf.lt_size_of_findByPath? hparent
  have hpath := hmirrors.described.path_of_findByPath? hnamed hparent
  refine ⟨hdescribed, by simp [hmirrors.size_eq], fun id other hid => ?_⟩
  rcases lt_or_ge id done.length with hold | hnew
  · rw [List.getElem?_append_left hold] at hid
    exact (hmirrors.declares id other hid).attach hwf (hmirrors.lt_size hid) hlt
  · rw [List.getElem?_append_right hnew, List.getElem?_singleton] at hid
    have hsize : id = tree.size ∧ document = other := by
      rw [hmirrors.size_eq]
      split at hid
      · exact ⟨by omega, Option.some.inj hid⟩
      · cases hid
    obtain ⟨rfl, rfl⟩ := hsize
    exact hmakes.declares_attach hwf hlt hempty hpath hnumbered

/-! ## Subcommands and their documents -/

/-- The parent path of a document is the path of the parent. -/
theorem Mirrors.parentPath_eq_path (hmirrors : tree.Mirrors done)
    (hid : done[id]? = some document) (hparent : parent < tree.size) :
    document.parentPath = tree.path parent ↔ (tree.node id).parent = some parent := by
  have hwf := hmirrors.described.built.wellFormed
  have hlt := hmirrors.lt_size hid
  rw [CommandDocument.parentPath, ← (hmirrors.declares id document hid).path_eq]
  rcases Nat.eq_zero_or_pos id with rfl | hpos
  · rw [hwf.path_root, hwf.parent_root]
    exact iff_of_false (fun hpath => path_ne_nil tree parent hpath.symm) (by simp)
  · obtain ⟨holder, hbefore, hholder⟩ := hwf.exists_parent hpos hlt
    rw [hwf.dropLast_path hholder, hholder, Option.some.injEq]
    constructor
    · exact hmirrors.described.path_injective (Nat.lt_trans hbefore hlt) hparent
    · exact congrArg tree.path

/-- The program is the command whose document names no parent. -/
theorem Mirrors.parentPath_eq_nil (hmirrors : tree.Mirrors done)
    (hid : done[id]? = some document) : document.parentPath = [] ↔ id = 0 := by
  have hwf := hmirrors.described.built.wellFormed
  rw [CommandDocument.parentPath, ← (hmirrors.declares id document hid).path_eq]
  rcases Nat.eq_zero_or_pos id with rfl | hpos
  · rw [hwf.path_root]
    exact iff_of_true rfl rfl
  · obtain ⟨holder, -, hholder⟩ := hwf.exists_parent hpos (hmirrors.lt_size hid)
    rw [hwf.dropLast_path hholder]
    exact iff_of_false (path_ne_nil tree holder) (Nat.ne_of_gt hpos)

/-- The subcommands of a command are those of the documents below its path, in their order. -/
theorem Mirrors.map_children (hmirrors : tree.Mirrors done) (hid : id < tree.size) :
    (tree.children id).map (done[·]?) =
      (CommandDocument.below done (tree.path id)).map some := by
  have hwf := hmirrors.described.built.wellFormed
  let isBelow (document : Option CommandDocument) : Bool :=
    document.any fun document => document.parentPath = tree.path id
  have hdone : done.map some = (List.range done.length).map (done[·]?) := by
    refine List.ext_getElem (by simp) fun place hleft hright => ?_
    simp at hright
    simp [hright]
  have hbelow : (CommandDocument.below done (tree.path id)).map some =
      ((List.range done.length).filter (isBelow ∘ (done[·]?))).map (done[·]?) := by
    rw [← List.filter_map, ← hdone, List.filter_map]
    rfl
  rw [hbelow]
  refine congrArg (List.map _) ?_
  have hrange : ((List.range done.length).filter (isBelow ∘ (done[·]?))).Pairwise (· < ·) :=
    List.pairwise_lt_range.filter _
  refine (hwf.ascending id).eq_of_mem_iff hrange fun other => ?_
  rw [hwf.mem_children, List.mem_filter, List.mem_range, ← hmirrors.size_eq]
  constructor
  · intro hholds
    have hlt := lt_size_of_parent hholds
    obtain ⟨document, -, hother, -⟩ := hmirrors.exists_document hlt
    refine ⟨hlt, ?_⟩
    rw [Function.comp_apply, hother]
    exact decide_eq_true ((hmirrors.parentPath_eq_path hother hid).mpr hholds)
  · rintro ⟨hlt, hother_below⟩
    obtain ⟨document, -, hother, -⟩ := hmirrors.exists_document hlt
    rw [Function.comp_apply, hother] at hother_below
    exact (hmirrors.parentPath_eq_path hother hid).mp (of_decide_eq_true hother_below)

end CommandTree
end ShellCompletion
