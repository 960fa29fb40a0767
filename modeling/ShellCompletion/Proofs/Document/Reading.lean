import ShellCompletion.Proofs.Document.Making
import ShellCompletion.Proofs.Document.Part

/-!
# Reading the documents of a tree

The document of a command, read into a tree that has the command's parent already, adds
exactly this command. Reading all documents of a tree one after the other therefore makes
up larger and larger parts of the tree.
-/

namespace ShellCompletion.CommandTree

variable {tree : CommandTree} {done : List Nat} {id parent : Nat}

/-! ## Paths -/

/-- Paths are made of names. -/
theorem Described.isWord_of_mem_path (htree : tree.Described) (hid : id < tree.size) :
    ∀ name ∈ tree.path id, Text.IsWord name := by
  intro name hname
  obtain ⟨ancestor, hancestor, rfl⟩ := List.mem_map.mp hname
  have hle := le_of_mem_lineage (List.mem_reverse.mp hancestor)
  exact htree.isWord ancestor (by omega)

/-- The path of a document is the path of its command. -/
theorem Described.path_document (htree : tree.Described) (hid : id < tree.size) :
    (tree.document id).path = tree.path id :=
  Text.words_intercalate (htree.isWord_of_mem_path hid)

/-- Every path leads to its command. -/
theorem Described.findByPath?_part (htree : tree.Described) (hgrows : tree.Grows done)
    (hid : id ∈ done) :
    (tree.part done).findByPath? (tree.path id) = some (done.idxOf id) := by
  have hwf := htree.built.wellFormed
  induction id using Nat.strongRecOn with
  | _ id ih =>
    rcases Nat.eq_zero_or_pos id with rfl | hpos
    · have hplace : done.idxOf 0 = 0 := by
        rw [hgrows.eq_cons, List.idxOf_cons_self]
      have hname : (tree.part done).programName = tree.programName := by
        have hnode : (tree.part done).node (done.idxOf 0) = tree.partNode done 0 :=
          node_part_idxOf hid
        rw [hplace] at hnode
        rw [programName, command, hnode]
        rfl
      rw [hwf.path_root, findByPath?, hname, hplace]
      simp
    · obtain ⟨parent, hlt, hparent⟩ := hwf.exists_parent hpos (hgrows.lt_size hwf id hid)
      have hmem := (hgrows.idxOf_parent_lt hwf id hid parent hparent).1
      rw [hwf.path_eq hparent, findByPath?_append (path_ne_nil tree parent),
        ih parent hlt hmem, Option.bind_some, htree.findSubcommand?_part hparent hmem hid]

/-! ## What the document of a command makes -/

/-- The positional arguments in the document of a command are in the order of their
numbers. -/
theorem orderedPositionals_document (tree : CommandTree) (id : Nat) :
    (tree.document id).orderedPositionals = (tree.document id).positionals := by
  refine List.mergeSort_of_pairwise (List.pairwise_iff_getElem.mpr ?_)
  intro first second hfirst hsecond hlt
  simp only [document, List.getElem_map, List.getElem_zipIdx, Positional.toDocument,
    positionalNumber, decide_eq_true_eq]
  omega

/-- The document of a command has its name. -/
theorem Described.name_document (htree : tree.Described) (hid : id < tree.size) :
    (tree.document id).name = (tree.command id).name := by
  rw [CommandDocument.name, htree.path_document hid, path, lineage, List.reverse_cons,
    List.map_append, List.map_singleton, List.getLastD_concat]

/-- The documents of the options of a command describe these options. -/
theorem Described.mapM_toOption (htree : tree.Described) (id : Nat) :
    (tree.document id).options.mapM (·.toOption) = .ok (tree.command id).options := by
  refine mapM_eq_ok.mpr (List.forall₂_map_left_iff.mpr (List.forall₂_same.mpr ?_))
  intro option hoption
  exact (htree.options id option hoption).toOption_toDocument

/-- The documents of the positional arguments of a command describe these arguments. -/
theorem Described.mapM_toPositional (htree : tree.Described) (id : Nat) :
    (tree.document id).orderedPositionals.mapM (·.toPositional) =
      .ok (tree.command id).positionals := by
  have hplaces := List.zipIdx_map_fst 0 (tree.command id).positionals
  rw [orderedPositionals_document, ← hplaces]
  refine mapM_eq_ok.mpr (List.forall₂_map_left_iff.mpr (List.forall₂_map_right_iff.mpr ?_))
  refine List.forall₂_same.mpr fun item hitem => ?_
  have hmem := List.fst_mem_of_mem_zipIdx hitem
  exact (htree.positionals id item.1 hmem).toPositional_toDocument _

/-- The document of a command makes that command, apart from a slot that subcommands bring
along. -/
theorem Described.makes_document (htree : tree.Described) (hid : id < tree.size) :
    (tree.document id).Makes { tree.command id with
      slot := (tree.slotDocument id).map fun slot => ⟨slot.metavar, slot.help⟩ } := by
  refine ⟨CommandDocument.command?_eq_ok.mpr ⟨_, htree.mapM_toOption id, _,
    htree.mapM_toPositional id, ?_⟩, htree.built.wellFormed.disjoint id⟩
  rw [CommandDocument.commandWith, htree.name_document hid]
  rfl

/-- The document of a command gives its positional arguments the numbers of their places. -/
theorem isNumberedFrom_document (tree : CommandTree) (id : Nat) :
    (tree.document id).IsNumberedFrom (tree.slotsBefore id) := by
  have hnumbers : (tree.document id).positionals.map (·.number) = tree.positionalNumbers id := by
    refine List.ext_getElem (by simp [document, positionalNumbers]) fun place _ _ => ?_
    simp [document, positionalNumbers, Positional.toDocument]
  have hlength : (tree.document id).positionals.length = (tree.command id).positionals.length := by
    simp [document]
  rw [CommandDocument.IsNumberedFrom, orderedPositionals_document, hnumbers, hlength,
    positionalNumbers_eq]

/-- The document of a command makes a new command of its name what the command is. -/
theorem Described.applyTo_document (htree : tree.Described) (hid : id < tree.size)
    {into : CommandTree} {place : Nat} (hplace : place < into.size)
    (hnew : ∃ help, into.command place = { name := (tree.command id).name, help })
    (hslots : into.slotsBefore place = tree.slotsBefore id) :
    (tree.document id).applyTo place into =
      .ok (into.modify place fun _ => { tree.command id with
        slot := (tree.slotDocument id).map fun slot => ⟨slot.metavar, slot.help⟩ }) := by
  rw [← htree.name_document hid] at hnew
  have hnumbered := isNumberedFrom_document tree id
  rw [← hslots] at hnumbered
  exact (CommandDocument.applyTo_eq_ok hplace hnew).mpr
    ⟨_, htree.makes_document hid, hnumbered, rfl⟩

/-! ## Reading one document after the other -/

/-- The document of the program makes a new program the first part. -/
theorem Described.applyTo_program (htree : tree.Described) :
    (tree.document 0).applyTo 0 (CommandTree.new tree.programName) = .ok (tree.part [0]) := by
  have hwf := htree.built.wellFormed
  have hslots : (CommandTree.new tree.programName).slotsBefore 0 = tree.slotsBefore 0 := by
    rw [hwf.slotsBefore_root, (WellFormed.new _).slotsBefore_root]
  rw [htree.applyTo_document hwf.size_pos Nat.one_pos ⟨"", rfl⟩ hslots]
  have hfilter : (tree.children 0).filter (· ∈ [0]) = [] := by
    rw [List.filter_eq_nil_iff]
    intro child hchild
    have hlt := hwf.lt_of_mem_children hchild
    simpa using Nat.ne_of_gt hlt
  refine congrArg Except.ok (eq_of_node (by simp) fun id hid => ?_)
  obtain rfl : id = 0 := by
    rw [size_modify, size_new] at hid
    omega
  rw [node_modify_self (by simp), node_part (by simp), List.getElem_cons_zero, partNode, hfilter,
    slotAmong_of_filter_eq_nil hfilter, hwf.parent_root]
  rfl

/-- The document of the next command adds it to a part. -/
theorem IsNext.addTo_part (hnext : tree.IsNext done parent id) (htree : tree.Described)
    (hgrows : tree.Grows done) :
    CommandDocument.addTo (tree.part done) (tree.document id) =
      .ok (tree.part (done ++ [id])) := by
  have hwf := htree.built.wellFormed
  have hid := lt_size_of_parent hnext.parent_eq
  let attached := (tree.part done).attach (done.idxOf parent)
    { name := (tree.command id).name, help := (tree.document id).help }
  have hpart := hnext.attach_part hwf hgrows
    { name := (tree.command id).name, help := (tree.document id).help }
  have hparent_lt : done.idxOf parent < (tree.part done).size := by
    rw [size_part]
    exact List.idxOf_lt_length_iff.mpr hnext.mem
  have hcommand : attached.command done.length =
      { name := (tree.command id).name, help := (tree.document id).help } := by
    rw [command_attach hparent_lt, size_part, if_pos rfl]
  have hslots : attached.slotsBefore done.length = tree.slotsBefore id := by
    have hplace : (done ++ [id]).idxOf id = done.length := by
      rw [List.idxOf_append_of_notMem hnext.notMem]
      simp
    have hslots := (hgrows.subcommand hnext).slotsBefore_part hwf
      (List.mem_append_right done List.mem_cons_self)
    rwa [← hpart, hplace, slotsBefore_modify_self] at hslots
  have happly : (tree.document id).applyTo (tree.part done).size attached =
      .ok (tree.part (done ++ [id])) := by
    have hlt : done.length < attached.size := by simp [attached]
    rw [size_part, htree.applyTo_document hid hlt ⟨_, hcommand⟩ hslots, hpart]
  refine CommandDocument.addTo_eq_ok.mpr ⟨tree.path parent, (tree.command id).name,
    done.idxOf parent, ?_, path_ne_nil tree parent, htree.findByPath?_part hgrows hnext.mem,
    hnext.findSubcommand?_part htree, happly⟩
  rw [htree.path_document hid, hwf.path_eq hnext.parent_eq]

/-- Reading the documents of commands that were added one after the other makes up the
part of the tree that these commands are. -/
theorem Grows.foldlM_addTo (hgrows : tree.Grows done) (htree : tree.Described) :
    ((done.tail).map tree.document).foldlM CommandDocument.addTo (tree.part [0]) =
      .ok (tree.part done) := by
  induction hgrows with
  | program => rfl
  | @subcommand done _ id hgrows hnext ih =>
    have htail : (done ++ [id]).tail = done.tail ++ [id] := by
      rw [hgrows.eq_cons]
      rfl
    rw [htail, List.map_append, List.foldlM_append, ih]
    exact bind_eq_ok.mpr ⟨_, rfl, bind_eq_ok.mpr ⟨_, hnext.addTo_part htree hgrows, rfl⟩⟩

/-- The documents of a tree sorted by the lengths of their paths are those of the commands
in reading order. -/
theorem Described.mergeSort_toDocuments (htree : tree.Described) :
    tree.toDocuments.mergeSort (fun a b => a.path.length ≤ b.path.length) =
      tree.readingOrder.map tree.document := by
  refine (List.map_mergeSort fun a ha b hb => ?_).symm
  have hwf := htree.built.wellFormed
  rw [htree.path_document (hwf.mem_walk.mp ha), htree.path_document (hwf.mem_walk.mp hb),
    length_path, length_path, pathLE]

/-- Reading the documents of a tree makes up the tree in reading order. -/
theorem Described.ofDocuments_toDocuments_eq (htree : tree.Described) :
    ofDocuments tree.toDocuments = .ok (tree.part tree.readingOrder) := by
  have hwf := htree.built.wellFormed
  have hgrows := hwf.grows_readingOrder
  have hsorted := htree.mergeSort_toDocuments
  rw [hgrows.eq_cons, List.map_cons] at hsorted
  have hpath : (tree.document 0).path = [tree.programName] := by
    rw [htree.path_document hwf.size_pos, hwf.path_root]
  exact ofDocuments_eq_ok.mpr
    ⟨_, _, _, _, hsorted, hpath, htree.applyTo_program, hgrows.foldlM_addTo htree⟩

end ShellCompletion.CommandTree
