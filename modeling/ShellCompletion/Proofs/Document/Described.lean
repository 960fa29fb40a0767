import ShellCompletion.Proofs.CommandTree.Paths
import ShellCompletion.Proofs.Document.Arguments

/-!
# Trees that documents describe

Reading documents builds a tree by the operations on trees. Beyond what holds of every
such tree, names are words, no subcommand hides a later one, and documents can express
every option and positional argument.
-/

namespace ShellCompletion

namespace CommandTree

variable {tree after : CommandTree} {id parent : Nat} {name : String}

/-- What holds of every tree that documents describe. -/
structure Described (tree : CommandTree) : Prop where
  /-- Operations build the tree. -/
  built : tree.Built
  /-- Names are words. -/
  isWord : ∀ id < tree.size, Text.IsWord (tree.command id).name
  /-- No subcommand answers to the name of a later one. -/
  name_notMem : ∀ id, (tree.children id).Pairwise
    fun earlier later => (tree.command later).name ∉ (tree.command earlier).names
  /-- Documents can express the options. -/
  options : ∀ id, ∀ option ∈ (tree.command id).options, option.IsExpressible
  /-- Documents can express the positional arguments. -/
  positionals : ∀ id, ∀ positional ∈ (tree.command id).positionals, positional.IsExpressible

/-- Among commands of which none answers to the name of a later one, every command is found by its
name. -/
theorem find?_name {children : List Nat} (hpairs : children.Pairwise fun earlier later =>
      (tree.command later).name ∉ (tree.command earlier).names) (hmem : id ∈ children) :
    (children.find? fun child => (tree.command child).names.contains (tree.command id).name) =
      some id :=
  find?_of_pairwise hpairs hmem (by simp [Command.names]) fun sibling hsibling => by
    simpa using hsibling

namespace Described

/-- The tree of a program is described if its name is a word. -/
theorem new (hword : Text.IsWord name) : (new name).Described := by
  refine ⟨.new name, ?_, ?_, ?_, ?_⟩
  · intro id hid
    obtain rfl : id = 0 := by
      rw [size_new] at hid
      omega
    exact hword
  · intro id
    rw [(parent_and_children_new name id).2]
    exact List.Pairwise.nil
  · exact forall_command_new (fun command => ∀ option ∈ command.options, option.IsExpressible)
      (List.forall_mem_nil _) (List.forall_mem_nil _)
  · exact forall_command_new
      (fun command => ∀ positional ∈ command.positionals, positional.IsExpressible)
      (List.forall_mem_nil _) (List.forall_mem_nil _)

/-- Replacing a declaration keeps a tree described if the name stays, other names change
for the last command only, and documents can express what is declared. -/
theorem modify (htree : tree.Described) {change : Command → Command}
    (hstep : Step tree (tree.modify id change))
    (hname : (change (tree.command id)).name = (tree.command id).name)
    (haliases : (change (tree.command id)).aliases = (tree.command id).aliases ∨
      tree.size = id + 1)
    (hoptions : ∀ option ∈ (change (tree.command id)).options, option.IsExpressible)
    (hpositionals : ∀ positional ∈ (change (tree.command id)).positionals,
      positional.IsExpressible) :
    (tree.modify id change).Described := by
  have hwf := htree.built.wellFormed
  have hname_modify : ∀ other, ((tree.modify id change).command other).name =
      (tree.command other).name := by
    intro other
    rw [command_modify]
    split
    · rename_i hother
      rw [hname, hother.1]
    · rfl
  refine ⟨.step htree.built hstep, ?_, ?_, ?_, ?_⟩
  · intro other hother
    rw [hname_modify]
    exact htree.isWord other (by simpa using hother)
  · intro other
    rw [children_modify]
    have hpairs := (htree.name_notMem other).and (hwf.ascending other)
    refine hpairs.imp_of_mem ?_
    rintro earlier later - hlater ⟨hnotMem, hlt⟩
    rw [hname_modify, command_modify]
    split
    · rename_i hearlier
      obtain ⟨rfl, hid⟩ := hearlier
      rcases haliases with hsame | hlast
      · rwa [Command.names, hname, hsame]
      · have hsize := hwf.lt_size_of_mem hlater
        omega
    · exact hnotMem
  · exact forall_command_modify (fun command => ∀ option ∈ command.options, option.IsExpressible)
      hoptions htree.options
  · exact forall_command_modify
      (fun command => ∀ positional ∈ command.positionals, positional.IsExpressible)
      hpositionals htree.positionals

/-- Attaching a subcommand whose name is a word and none of the others' names keeps a tree
described. -/
theorem attach (htree : tree.Described) {help : String} (hparent : parent < tree.size)
    (hword : Text.IsWord name) (hfind : tree.findSubcommand? parent name = none) :
    (tree.attach parent { name, help }).Described := by
  have hwf := htree.built.wellFormed
  have hadd : tree.addSubcommand parent name help =
      .ok (tree.attach parent { name, help }, tree.size) :=
    addSubcommand_eq_ok.mpr ⟨hfind, rfl, rfl⟩
  have hnames : ∀ other < tree.size,
      ((tree.attach parent { name, help }).command other).name = (tree.command other).name ∧
      ((tree.attach parent { name, help }).command other).names = (tree.command other).names := by
    intro other hother
    obtain ⟨slot, hcommand, -⟩ := exists_command_attach hparent hother
    rw [hcommand]
    exact ⟨rfl, rfl⟩
  have hname_size : ((tree.attach parent { name, help }).command tree.size).name = name := by
    rw [command_attach hparent, if_pos rfl]
  refine ⟨.step htree.built (.addSubcommand parent name help hparent hadd), ?_, ?_, ?_, ?_⟩
  · intro id hid
    rw [size_attach] at hid
    by_cases hsize : id = tree.size
    · rw [hsize, hname_size]
      exact hword
    · rw [(hnames id (by omega)).1]
      exact htree.isWord id (by omega)
  · intro id
    have hold : ∀ holder, (tree.children holder).Pairwise fun earlier later =>
        ((tree.attach parent { name, help }).command later).name ∉
          ((tree.attach parent { name, help }).command earlier).names := by
      intro holder
      refine (htree.name_notMem holder).imp_of_mem fun hearlier hlater hnotMem => ?_
      rwa [(hnames _ (hwf.lt_size_of_mem hearlier)).2, (hnames _ (hwf.lt_size_of_mem hlater)).1]
    rw [children_attach hparent]
    split
    · refine List.pairwise_append.mpr ⟨hold parent, List.pairwise_singleton _ _, ?_⟩
      intro child hchild last hlast
      rw [List.mem_singleton.mp hlast, hname_size, (hnames child (hwf.lt_size_of_mem hchild)).2]
      simpa using List.find?_eq_none.mp hfind child hchild
    · exact hold id
  · exact forall_command_attach
      (fun command => ∀ option ∈ command.options, option.IsExpressible) hparent
      (List.forall_mem_nil _) (htree.options parent) htree.options
  · exact forall_command_attach
      (fun command => ∀ positional ∈ command.positionals, positional.IsExpressible) hparent
      (List.forall_mem_nil _) (htree.positionals parent) htree.positionals

end Described

end CommandTree

namespace CommandDocument

open CommandTree

variable {tree after : CommandTree} {id : Nat} {document : CommandDocument}

/-- An option document is added if it describes an option that can be added. -/
theorem addOption_eq_ok {option : OptionDocument} :
    CommandDocument.addOption id tree option = .ok after ↔
      ∃ built, option.toOption = .ok built ∧ tree.addOption id built = .ok after :=
  bind_eq_ok

/-- A positional document is added if it has the number of its place. -/
theorem addPositional_eq_ok {positional : PositionalDocument} :
    document.addPositional id tree positional = .ok after ↔
      positional.number = tree.positionalNumber id (tree.command id).positionals.length ∧
        ∃ built, positional.toPositional = .ok built ∧ after = tree.addPositional id built := by
  unfold CommandDocument.addPositional
  by_cases hnumber :
      positional.number = tree.positionalNumber id (tree.command id).positionals.length
  · cases positional.toPositional <;>
      simp [hnumber, bind, Except.bind, pure, Except.pure, eq_comm]
  · simp [hnumber, bind, Except.bind, throw, throwThe, MonadExceptOf.throw]

/-- A document is added below the command that its path names, if that command has no
subcommand of its name. -/
theorem addTo_eq_ok :
    addTo tree document = .ok after ↔
      ∃ enclosing name parent, document.path = enclosing ++ [name] ∧ enclosing ≠ [] ∧
        tree.findByPath? enclosing = some parent ∧ tree.findSubcommand? parent name = none ∧
        document.applyTo tree.size (tree.attach parent { name, help := document.help }) =
          .ok after := by
  constructor
  · intro hadd
    unfold addTo at hadd
    split at hadd
    · rename_i name enclosing hreverse
      have hpath : document.path = enclosing.reverse ++ [name] := by
        rw [← List.reverse_reverse document.path, hreverse, List.reverse_cons]
      by_cases hempty : enclosing = []
      · simp [hempty, bind, Except.bind, throw, throwThe, MonadExceptOf.throw] at hadd
      · rw [if_neg (by simpa using hempty)] at hadd
        split at hadd
        · cases hadd
        · rename_i parent hparent
          obtain ⟨⟨between, id⟩, hattach, happly⟩ := bind_eq_ok.mp hadd
          obtain ⟨hfind, rfl, rfl⟩ := addSubcommand_eq_ok.mp hattach
          exact ⟨enclosing.reverse, name, parent, hpath, by simpa using hempty, hparent, hfind,
            happly⟩
    · cases hadd
  · rintro ⟨enclosing, name, parent, hpath, hempty, hparent, hfind, happly⟩
    have hadd := addSubcommand_eq_ok.mpr
      ⟨hfind, (rfl : _ = tree.attach parent { name, help := document.help }), rfl⟩
    simpa [addTo, hpath, hempty, hparent, hadd, bind, Except.bind] using happly

/-- Adding an option keeps a tree described. -/
theorem described_of_addOption {option : OptionDocument} (htree : tree.Described)
    (hid : id < tree.size) (hadd : CommandDocument.addOption id tree option = .ok after) :
    after.Described ∧ after.size = tree.size := by
  obtain ⟨built, hread, hadd⟩ := CommandDocument.addOption_eq_ok.mp hadd
  have hstep : Step tree after := .addOption id built hid hadd
  obtain ⟨-, rfl⟩ := CommandTree.addOption_eq_ok.mp hadd
  refine ⟨htree.modify hstep rfl (.inl rfl) ?_ (htree.positionals id), size_modify⟩
  intro option hoption
  rcases List.mem_append.mp hoption with hold | hnew
  · exact htree.options id option hold
  · rw [List.mem_singleton.mp hnew]
    exact isExpressible_of_toOption hread

/-- Adding a positional argument keeps a tree described. -/
theorem described_of_addPositional {positional : PositionalDocument} (htree : tree.Described)
    (hid : id < tree.size) (hadd : document.addPositional id tree positional = .ok after) :
    after.Described ∧ after.size = tree.size := by
  obtain ⟨-, built, hread, rfl⟩ := addPositional_eq_ok.mp hadd
  refine ⟨htree.modify (.addPositional id built hid) rfl (.inl rfl) (htree.options id) ?_,
    size_modify⟩
  intro positional hpositional
  rcases List.mem_append.mp hpositional with hold | hnew
  · exact htree.positionals id positional hold
  · rw [List.mem_singleton.mp hnew]
    exact isExpressible_of_toPositional hread

/-- Steps that keep a tree described, and its size, do so in a row. -/
theorem described_of_foldlM {α : Type} {attempt : CommandTree → α → Except Error CommandTree}
    {items : List α} (hattempt : ∀ {before after : CommandTree} {item : α}, before.Described →
      id < before.size → attempt before item = .ok after →
        after.Described ∧ after.size = before.size)
    (htree : tree.Described) (hid : id < tree.size)
    (hrun : items.foldlM attempt tree = .ok after) :
    after.Described ∧ after.size = tree.size := by
  refine foldlM_invariant (fun after => after.Described ∧ after.size = tree.size) ?_
    ⟨htree, rfl⟩ hrun
  rintro item - before after ⟨hbefore, hsize⟩ hstep
  obtain ⟨hafter, hsame⟩ := hattempt hbefore (by omega) hstep
  exact ⟨hafter, hsame.trans hsize⟩

/-- Making the last command what a document describes keeps a tree described. -/
theorem described_of_applyTo (htree : tree.Described) (hlast : tree.size = id + 1)
    (happly : document.applyTo id tree = .ok after) : after.Described := by
  have hdescription : Command.IsDescription fun command => {
      command with
      aliases := document.aliases
      help := document.help
      abbreviateCommands := document.abbreviateCommands
      abbreviateOptions := document.abbreviateOptions
      inheritOptions := document.inheritOptions } := fun _ => ⟨rfl, rfl, rfl⟩
  have hstart := htree.modify (.describe id _ hdescription (by omega)) rfl (.inr hlast)
    (htree.options id) (htree.positionals id)
  obtain ⟨withOptions, hoptions, hrest⟩ := bind_eq_ok.mp happly
  obtain ⟨withPositionals, hpositionals, hslot⟩ := bind_eq_ok.mp hrest
  have hid : id < tree.size := by omega
  obtain ⟨hwithOptions, hsize_options⟩ :=
    described_of_foldlM described_of_addOption hstart (by simpa using hid) hoptions
  rw [size_modify] at hsize_options
  obtain ⟨hdescribed, hsize⟩ :=
    described_of_foldlM described_of_addPositional hwithOptions (by omega) hpositionals
  cases hsubcommands : document.subcommands with
  | none =>
    simp only [hsubcommands] at hslot
    cases hslot
    exact hdescribed
  | some slot =>
    simp only [hsubcommands] at hslot
    have hstep : Step withPositionals after := .addSlot id _ (by omega) hslot
    obtain ⟨-, rfl⟩ := addSlot_eq_ok.mp hslot
    exact hdescribed.modify hstep rfl (.inl rfl) (hdescribed.options id)
      (hdescribed.positionals id)

/-- Paths of documents are made of words. -/
theorem isWord_of_mem_path (hname : name ∈ document.path) : Text.IsWord name :=
  Text.isWord_of_mem_words hname

/-- Adding a document keeps a tree described. -/
theorem described_of_addTo (htree : tree.Described) (hadd : addTo tree document = .ok after) :
    after.Described := by
  obtain ⟨enclosing, name, parent, hpath, -, hparent, hfind, happly⟩ := addTo_eq_ok.mp hadd
  have hword := isWord_of_mem_path (hpath ▸ List.mem_append_right enclosing List.mem_cons_self)
  have hsize := htree.built.wellFormed.lt_size_of_findByPath? hparent
  exact described_of_applyTo (htree.attach hsize hword hfind) size_attach happly

end CommandDocument

/-- Documents are read if the first one by the length of its path names a program, and those of
its subcommands are added one after the other. -/
theorem CommandTree.ofDocuments_eq_ok {documents : List CommandDocument} {tree : CommandTree} :
    ofDocuments documents = .ok tree ↔ ∃ program rest name start,
      documents.mergeSort (fun a b => a.path.length ≤ b.path.length) = program :: rest ∧
        program.path = [name] ∧ program.applyTo 0 (CommandTree.new name) = .ok start ∧
        rest.foldlM CommandDocument.addTo start = .ok tree := by
  constructor
  · intro hread
    unfold ofDocuments at hread
    split at hread
    · cases hread
    · rename_i program rest hsorted
      split at hread
      · rename_i name hpath
        obtain ⟨start, hstart, hrest⟩ := bind_eq_ok.mp hread
        exact ⟨program, rest, name, start, hsorted, hpath, hstart, hrest⟩
      · cases hread
  · rintro ⟨program, rest, name, start, hsorted, hpath, hstart, hrest⟩
    unfold ofDocuments
    rw [hsorted]
    simp only [hpath]
    exact bind_eq_ok.mpr ⟨start, hstart, hrest⟩

/-- A tree that documents describe is described. -/
theorem CommandTree.described_of_ofDocuments {documents : List CommandDocument}
    {tree : CommandTree} (hread : ofDocuments documents = .ok tree) : tree.Described := by
  obtain ⟨program, rest, name, start, -, hpath, hstart, hrest⟩ := ofDocuments_eq_ok.mp hread
  have hword := CommandDocument.isWord_of_mem_path (hpath ▸ List.mem_singleton_self name)
  refine foldlM_invariant Described ?_ ?_ hrest
  · intro document _ before after hbefore hadd
    exact CommandDocument.described_of_addTo hbefore hadd
  · exact CommandDocument.described_of_applyTo (.new hword) rfl hstart

end ShellCompletion
