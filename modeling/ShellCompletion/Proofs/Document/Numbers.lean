import ShellCompletion.Proofs.Document.Reading
import ShellCompletion.Proofs.Specification

/-!
# Numbers in documents

A document says which number each positional argument has, and reading it checks this while
the tree is still growing. Whatever is added later, the arguments keep these numbers.
-/

namespace ShellCompletion

open CommandTree

namespace CommandDocument

variable {tree after : CommandTree} {id : Nat} {document : CommandDocument}

/-- The document describes the positional arguments of a command, under their numbers. -/
structure Describes (document : CommandDocument) (tree : CommandTree) (id : Nat) : Prop where
  /-- The command is one of the tree. -/
  lt_size : id < tree.size
  /-- The path of the document leads to the command. -/
  path_eq : tree.findByPath? document.path = some id
  /-- In order of their numbers, the arguments of the document are those of the command. -/
  positionals_eq : document.orderedPositionals.mapM (·.toPositional) =
    .ok (tree.command id).positionals
  /-- The numbers are those of the arguments of the command. -/
  numbers_eq : document.orderedPositionals.map (·.number) = tree.positionalNumbers id

/-- A document describes the command that it makes where its path leads. -/
theorem Makes.describes {command : Command} (hmakes : document.Makes command)
    (hid : id < tree.size) (hcommand : tree.command id = command)
    (hpath : tree.findByPath? document.path = some id)
    (hnumbered : document.IsNumberedFrom (tree.slotsBefore id)) : document.Describes tree id := by
  have hlength := hmakes.names.2.2
  obtain ⟨options, -, positionals, hread, rfl⟩ := command?_eq_ok.mp hmakes.1
  refine ⟨hid, hpath, ?_, ?_⟩
  · rw [hread, hcommand]
    rfl
  · rw [positionalNumbers_eq, hcommand, hlength]
    exact hnumbered

/-- A document goes on describing its command when commands are added. -/
theorem Describes.extends (hdescribes : document.Describes tree id) (hwf : tree.WellFormed)
    (hextends : tree.Extends after) : document.Describes after id where
  lt_size := Nat.lt_of_lt_of_le hdescribes.lt_size hextends.size_le
  path_eq := hextends.findByPath?_eq hwf hdescribes.path_eq
  positionals_eq := by
    rw [hextends.positionals_eq id hdescribes.lt_size, hdescribes.positionals_eq]
  numbers_eq := by
    rw [hextends.positionalNumbers_eq hwf hdescribes.lt_size, hdescribes.numbers_eq]

/-- The document of the program describes it in the tree that reading starts from. -/
theorem describes_program {name : String} (hpath : document.path = [name])
    (hstart : document.applyTo 0 (CommandTree.new name) = .ok tree) :
    tree.Described ∧ document.Describes tree 0 := by
  have hword := isWord_of_mem_path (hpath ▸ List.mem_singleton_self name)
  have hsize : 0 < (CommandTree.new name).size := Nat.one_pos
  have hdescribed := described_of_applyTo (.new hword) rfl hstart
  obtain ⟨command, hmakes, hnumbered, rfl⟩ := (applyTo_new_eq_ok hpath).mp hstart
  have hcommand : ((CommandTree.new name).modify 0 fun _ => command).command 0 = command :=
    command_modify_self hsize
  have hname : command.name = name := by
    rw [hmakes.names.1, CommandDocument.name, hpath]
    rfl
  refine ⟨hdescribed, hmakes.describes (by simp) hcommand ?_ ?_⟩
  · rw [hpath, findByPath?, programName, hcommand, hname, if_pos (beq_self_eq_true _)]
    rfl
  · rw [hdescribed.built.wellFormed.slotsBefore_root]
    exact hnumbered

/-- Adding a document extends the tree by the command that the document describes. -/
theorem extends_of_addTo (htree : tree.Described) (hadd : addTo tree document = .ok after) :
    tree.Extends after ∧ document.Describes after tree.size := by
  have hwf := htree.built.wellFormed
  obtain ⟨hempty, parent, hparent, hfind, command, hmakes, hnumbered, rfl⟩ :=
    (addTo_eq_ok_attach hwf).mp hadd
  have hlt := hwf.lt_size_of_findByPath? hparent
  have hextends : tree.Extends (tree.attach parent command) := extends_attach hlt command
  have hcommand : (tree.attach parent command).command tree.size = command := by
    rw [command_attach hlt, if_pos rfl]
  refine ⟨hextends, hmakes.describes (by simp) hcommand ?_ ?_⟩
  · rw [path_eq (path_ne_nil hempty), findByPath?_append hempty,
      hextends.findByPath?_eq hwf hparent, Option.bind_some]
    refine hextends.findSubcommand?_new hwf hfind ?_ ?_
    · rw [children_attach hlt, if_pos rfl]
    · rw [hcommand, Command.names, hmakes.names.1]
      exact List.mem_cons_self
  · rw [hwf.slotsBefore_attach hlt]
    exact hnumbered

/-- Adding documents extends the tree by the commands that the documents describe. -/
theorem extends_of_foldlM_addTo {documents : List CommandDocument} (htree : tree.Described)
    (hrun : documents.foldlM addTo tree = .ok after) :
    tree.Extends after ∧ ∀ document ∈ documents, ∃ id, document.Describes after id := by
  induction documents generalizing tree with
  | nil =>
    cases hrun
    exact ⟨Extends.refl _, List.forall_mem_nil _⟩
  | cons document rest ih =>
    obtain ⟨next, hnext, hrest⟩ := bind_eq_ok.mp (List.foldlM_cons.symm.trans hrun)
    obtain ⟨hfirst, hdescribes⟩ := extends_of_addTo htree hnext
    have hnext_described := described_of_addTo htree hnext
    obtain ⟨hsecond, hothers⟩ := ih hnext_described hrest
    refine ⟨hfirst.trans hsecond, List.forall_mem_cons.mpr ⟨⟨tree.size, ?_⟩, hothers⟩⟩
    exact hdescribes.extends hnext_described.built.wellFormed hsecond

end CommandDocument

namespace CommandTree

/-- Every document that was read describes a command of the tree, under the numbers that the
command's positional arguments have in it. -/
theorem exists_describes_of_ofDocuments {documents : List CommandDocument} {tree : CommandTree}
    (hread : ofDocuments documents = .ok tree) :
    ∀ document ∈ documents, ∃ id, document.Describes tree id := by
  intro document hdocument
  rw [← (List.mergeSort_perm documents fun a b => a.path.length ≤ b.path.length).mem_iff]
    at hdocument
  obtain ⟨program, rest, name, start, hsorted, hpath, hstart, hrest⟩ :=
    ofDocuments_eq_ok.mp hread
  rw [hsorted] at hdocument
  obtain ⟨hdescribed, hdescribes⟩ := CommandDocument.describes_program hpath hstart
  obtain ⟨hextends, hothers⟩ := CommandDocument.extends_of_foldlM_addTo hdescribed hrest
  rcases List.mem_cons.mp hdocument with rfl | hmem
  · exact ⟨0, hdescribes.extends hdescribed.built.wellFormed hextends⟩
  · exact hothers document hmem

/-- On the way to a command, the positions are numbered one, two, three and so on, and the
numbers that documents give are those of the tree that they are read into, whatever commands
are added after their own. -/
theorem numbersTo_gapless :
    (∀ (tree : CommandTree) (id : Nat), tree.numbersTo id =
      List.range' 1 (tree.slotsBefore id + (tree.command id).slotCount)) ∧
    ∀ (documents : List CommandDocument) (tree : CommandTree),
      ofDocuments documents = .ok tree →
        ∀ document ∈ documents, ∃ id, document.Describes tree id :=
  ⟨numbersTo_eq, fun _ _ hread => exists_describes_of_ofDocuments hread⟩

/-- The document of a program with one positional argument. -/
def cloneDocument : CommandDocument where
  prog := "prog"
  positionals := [{ number := 1, metavar := "TARGET" }]

/-- The document of a subcommand with two positional arguments, the second one first. -/
def renameDocument : CommandDocument where
  prog := "prog rename"
  positionals := [{ number := 4, metavar := "NEW" }, { number := 3, metavar := "OLD" }]

/-- The tree of the two documents. -/
def withRename : CommandTree := ⟨#[
  { command := { name := "prog", positionals := [{ metavar := "TARGET" }], slot := some {} },
    children := [1] },
  { command := { name := "rename", positionals := [{ metavar := "OLD" }, { metavar := "NEW" }] },
    parent := some 0 }]⟩

/-- The tree is read from the two documents. -/
theorem ofDocuments_renameDocument :
    ofDocuments [cloneDocument, renameDocument] = .ok withRename := by
  have hname : cloneDocument.path = ["prog"] := by decide +kernel
  have hprogram : cloneDocument.orderedPositionals = [{ number := 1, metavar := "TARGET" }] :=
    List.mergeSort_singleton _
  have hsorted : renameDocument.orderedPositionals =
      [{ number := 3, metavar := "OLD" }, { number := 4, metavar := "NEW" }] := by
    simp [CommandDocument.orderedPositionals, renameDocument, List.mergeSort,
      List.MergeSort.Internal.splitInTwo]
  rw [ofDocuments_pair hname (by decide +kernel)]
  simp only [CommandDocument.applyTo, CommandDocument.addTo, hprogram, hsorted]
  with_unfolding_all rfl

/-- The premise holds of documents that give a subcommand's numbers after its program's. -/
theorem numbersTo_gapless_withRename :
    ofDocuments [cloneDocument, renameDocument] = .ok withRename ∧
      withRename.numbersTo 1 = [1, 2, 3, 4] ∧
      ∀ document ∈ [cloneDocument, renameDocument], ∃ id, document.Describes withRename id :=
  ⟨ofDocuments_renameDocument, (numbersTo_gapless.1 withRename 1).trans (by decide +kernel),
    numbersTo_gapless.2 _ _ ofDocuments_renameDocument⟩

end CommandTree
end ShellCompletion
