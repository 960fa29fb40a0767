import ShellCompletion.Proofs.Document.Mirror

/-!
# Which documents describe a tree

Documents are read one after the other, and every one is checked against the tree that those
before it have built. What all these checks come to can be said of the documents alone, without
regard to the order in which those of different parents are read.
-/

namespace ShellCompletion

namespace CommandDocument

open CommandTree

variable {documents others done rest : List CommandDocument} {document other : CommandDocument}
  {parent : List String}

/-! ## Documents that fit together -/

/-- Parent paths are written with names: where one goes through an alias of a command, that is
also the name of a command there. -/
def NamesParents (documents : List CommandDocument) : Prop :=
  ∀ document ∈ documents, ∀ other ∈ documents, ∀ word ∈ other.aliases,
    other.parentPath ++ [word] <+: document.parentPath →
      ∃ named ∈ documents, named.path = other.parentPath ++ [word]

/-- Documents that describe a tree together. -/
structure Coherent (documents : List CommandDocument) : Prop where
  /-- One document is that of a program, the others are those of subcommands. -/
  program : ∃ name, (below documents []).map (·.path) = [[name]]
  /-- The parent of every subcommand has a document. -/
  parent_mem : ∀ document ∈ documents, document.parentPath ≠ [] →
    ∃ holder ∈ documents, holder.path = document.parentPath
  /-- No subcommand answers to the name of a later one of the same parent. -/
  name_notMem : ∀ parent ≠ [], (below documents parent).Pairwise
    fun earlier later => later.name ∉ earlier.names
  /-- Every document makes a command. -/
  makes : ∀ document ∈ documents, ∃ command, document.Makes command
  /-- The positional arguments of a command have the numbers after those of the enclosing
  commands and their slots. -/
  numbered : ∃ count : List String → Nat, count [] = 0 ∧ ∀ document ∈ documents,
    count document.path = count document.parentPath + document.positionals.length + 1 ∧
      document.IsNumberedFrom (count document.parentPath)

/-- Names in parent paths do not depend on the order of the documents. -/
theorem NamesParents.perm (hnames : NamesParents documents) (hperm : documents.Perm others) :
    NamesParents others := by
  intro document hdocument other hother word hword hbegins
  obtain ⟨named, hnamed, hpath⟩ := hnames document (hperm.mem_iff.mpr hdocument) other
    (hperm.mem_iff.mpr hother) word hword hbegins
  exact ⟨named, hperm.mem_iff.mp hnamed, hpath⟩

/-- Documents go on fitting together in another order that keeps those of the same parent in
theirs. -/
theorem Coherent.perm (hcoherent : Coherent documents) (hperm : documents.Perm others)
    (horder : ∀ parent ≠ [], below documents parent = below others parent) :
    Coherent others where
  program := by
    obtain ⟨name, hname⟩ := hcoherent.program
    have hprogram := (hperm.filter (·.parentPath = [])).map (·.path)
    exact ⟨name, List.perm_singleton.mp (hprogram.symm.trans (.of_eq hname))⟩
  parent_mem document hdocument hempty := by
    obtain ⟨holder, hholder, hpath⟩ :=
      hcoherent.parent_mem document (hperm.mem_iff.mpr hdocument) hempty
    exact ⟨holder, hperm.mem_iff.mp hholder, hpath⟩
  name_notMem parent hparent := by
    rw [← horder parent hparent]
    exact hcoherent.name_notMem parent hparent
  makes document hdocument := hcoherent.makes document (hperm.mem_iff.mpr hdocument)
  numbered := by
    obtain ⟨count, hzero, hcount⟩ := hcoherent.numbered
    exact ⟨count, hzero, fun document hdocument =>
      hcount document (hperm.mem_iff.mpr hdocument)⟩

/-! ## The order of reading -/

/-- The order in which documents are read: those with shorter paths first. -/
def precedes (a b : CommandDocument) : Bool :=
  a.path.length ≤ b.path.length

/-- Lengths of paths compare transitively. -/
theorem precedes_trans (a b c : CommandDocument) (hab : a.precedes b) (hbc : b.precedes c) :
    a.precedes c := by
  simp only [precedes, decide_eq_true_eq] at *
  omega

/-- Lengths of paths compare in one direction at least. -/
theorem precedes_total (a b : CommandDocument) : a.precedes b || b.precedes a := by
  simp only [precedes, Bool.or_eq_true, decide_eq_true_eq]
  omega

/-- Documents with shorter paths are read before. -/
theorem mem_of_length_lt (hsorted : (done ++ document :: rest).Pairwise fun a b => a.precedes b)
    (hother : other ∈ done ++ document :: rest)
    (hlt : other.path.length < document.path.length) : other ∈ done := by
  rcases List.mem_append.mp hother with hdone | hlater
  · exact hdone
  · have hafter := (List.pairwise_cons.mp (List.pairwise_append.mp hsorted).2.1).1
    rcases List.mem_cons.mp hlater with rfl | hrest
    · omega
    · have hle := hafter other hrest
      rw [precedes, decide_eq_true_eq] at hle
      omega

/-- Documents of the same parent are read in their order. -/
theorem below_mergeSort (documents : List CommandDocument) (hparent : parent ≠ []) :
    below (documents.mergeSort precedes) parent = below documents parent := by
  have hlength : ∀ document ∈ below documents parent, document.path.length = parent.length + 1 := by
    intro document hdocument
    have hpath := (mem_below.mp hdocument).2
    rw [path_eq (path_ne_nil (hpath ▸ hparent)), hpath, List.length_append, List.length_singleton]
  have hsorted : (below documents parent).Pairwise fun a b => a.precedes b := by
    refine List.pairwise_of_forall_mem_list fun first hfirst second hsecond => ?_
    rw [precedes, hlength first hfirst, hlength second hsecond]
    exact decide_eq_true (Nat.le_refl _)
  have hsublist : (below documents parent).Sublist (documents.mergeSort precedes) :=
    List.sublist_mergeSort precedes_trans precedes_total hsorted List.filter_sublist
  have hbelow : (below documents parent).Sublist (below (documents.mergeSort precedes) parent) := by
    have hfiltered := hsublist.filter (·.parentPath = parent)
    simpa only [below, List.filter_filter, Bool.and_self] using hfiltered
  have hperm := (List.mergeSort_perm documents precedes).filter (·.parentPath = parent)
  exact (hbelow.eq_of_length hperm.length_eq.symm).symm

end CommandDocument

namespace CommandTree

open CommandDocument (NamesParents Coherent below below_cons below_append mem_below precedes)

variable {tree after : CommandTree} {id : Nat} {document : CommandDocument}
  {documents done rest : List CommandDocument}

/-! ## Reading in that order -/

/-- When a document is read, its parent path is written with names in the tree so far. -/
theorem Mirrors.isNamed (hmirrors : tree.Mirrors done)
    (hsorted : (done ++ document :: rest).Pairwise fun a b => precedes a b)
    (hnames : NamesParents (done ++ document :: rest)) : tree.IsNamed document.parentPath := by
  intro id hid word hword hbegins
  obtain ⟨other, hother, -, hdeclares⟩ := hmirrors.exists_document hid
  have hparent : (tree.path id).dropLast = other.parentPath := by
    rw [hdeclares.path_eq]
    rfl
  rw [hdeclares.names.2.1] at hword
  rw [hparent] at hbegins ⊢
  obtain ⟨named, hnamed, hpath⟩ := hnames document (by simp) other
    (List.mem_append_left _ hother) word hword hbegins
  -- The command of that name has a shorter path, so it is in the tree already.
  have hlength := hbegins.length_le
  rw [← hpath, CommandDocument.parentPath, List.length_dropLast] at hlength
  have hpos : 0 < named.path.length := by
    rw [hpath]
    simp
  have hbefore := CommandDocument.mem_of_length_lt hsorted hnamed (by omega)
  obtain ⟨place, hplace, -, hnamed_declares⟩ := hmirrors.exists_id hbefore
  exact ⟨place, hplace, hnamed_declares.path_eq.trans hpath⟩

/-- A tree mirrors the documents that were read, in the order of reading. -/
theorem Mirrors.foldlM_addTo (hmirrors : tree.Mirrors done)
    (hsorted : (done ++ rest).Pairwise fun a b => precedes a b)
    (hnames : NamesParents (done ++ rest))
    (hrun : rest.foldlM CommandDocument.addTo tree = .ok after) :
    after.Mirrors (done ++ rest) := by
  induction rest generalizing tree done with
  | nil =>
    cases hrun
    rwa [List.append_nil]
  | cons document rest ih =>
    rw [List.foldlM_cons, bind_eq_ok] at hrun
    obtain ⟨next, hadd, hrest⟩ := hrun
    have hnext := hmirrors.addTo (hmirrors.isNamed hsorted hnames) hadd
    rw [List.append_cons] at hsorted hnames ⊢
    exact ih hnext hsorted hnames hrest

/-- The tree that documents describe mirrors them, in the order of reading. -/
theorem mirrors_of_ofDocuments (hnames : NamesParents documents)
    (hread : ofDocuments documents = .ok tree) : tree.Mirrors (documents.mergeSort precedes) := by
  obtain ⟨program, rest, name, start, horder, hpath, hstart, hrest⟩ := ofDocuments_eq_ok.mp hread
  have hperm := List.mergeSort_perm documents precedes
  have hsorted := List.pairwise_mergeSort CommandDocument.precedes_trans
    CommandDocument.precedes_total documents
  have hnames_sorted := hnames.perm hperm.symm
  have horder_sorted : documents.mergeSort precedes = program :: rest := horder
  rw [horder_sorted] at hsorted hnames_sorted ⊢
  exact (Mirrors.program hpath hstart).foldlM_addTo hsorted hnames_sorted hrest

/-! ## Documents of a tree fit together -/

/-- How many positions are taken up on the way to the command of a path and by it. -/
def positionsTo (tree : CommandTree) (names : List String) : Nat :=
  ((tree.findByPath? names).map tree.subcommandNumber).getD 0

/-- On the way to a command and by it, the positions up to that of its slot are taken up. -/
theorem Described.positionsTo_path (htree : tree.Described) (hid : id < tree.size) :
    tree.positionsTo (tree.path id) = tree.subcommandNumber id := by
  rw [positionsTo, htree.findByPath?_path hid, Option.map_some, Option.getD_some]

/-- On the way to a command, the positions before its own are taken up. -/
theorem Described.positionsTo_dropLast (htree : tree.Described) (hid : id < tree.size) :
    tree.positionsTo (tree.path id).dropLast = tree.slotsBefore id := by
  have hcount : ∀ earlier < id,
      tree.subcommandNumber earlier = tree.positionsTo (tree.path earlier) :=
    fun earlier hlt => (htree.positionsTo_path (Nat.lt_trans hlt hid)).symm
  exact (htree.built.wellFormed.slotsBefore_eq_of_count rfl hcount hid).symm

/-- The program comes first, and its document is the only one without a parent path. -/
theorem Mirrors.below_nil (hmirrors : tree.Mirrors done) :
    (below done []).map (·.path) = [[tree.programName]] := by
  have hwf := hmirrors.described.built.wellFormed
  have hpos : 0 < done.length := hmirrors.size_eq ▸ hwf.size_pos
  obtain ⟨program, rest, rfl⟩ := List.exists_cons_of_length_pos hpos
  have hzero : (program :: rest)[0]? = some program := rfl
  have hprogram : program.parentPath = [] := (hmirrors.parentPath_eq_nil hzero).mpr rfl
  have hrest : below rest [] = [] := by
    refine List.eq_nil_iff_forall_not_mem.mpr fun document hmem => ?_
    obtain ⟨hdocument, hempty⟩ := mem_below.mp hmem
    obtain ⟨place, hplace⟩ := List.mem_iff_getElem?.mp hdocument
    have hnext : (program :: rest)[place + 1]? = some document := hplace
    have hroot := (hmirrors.parentPath_eq_nil hnext).mp hempty
    omega
  have hbelow : below (program :: rest) [] = [program] := by
    rw [below_cons, if_pos hprogram, hrest]
  rw [hbelow, List.map_singleton, ← (hmirrors.declares 0 program hzero).path_eq, hwf.path_root]

/-- The parent of a subcommand has a document. -/
theorem Mirrors.exists_parent (hmirrors : tree.Mirrors done) (hdocument : document ∈ done)
    (hempty : document.parentPath ≠ []) :
    ∃ parent < tree.size, tree.path parent = document.parentPath := by
  have hwf := hmirrors.described.built.wellFormed
  obtain ⟨id, hid, hget, -⟩ := hmirrors.exists_id hdocument
  have hpos : 0 < id := by
    refine Nat.pos_of_ne_zero fun hroot => hempty ?_
    exact (hmirrors.parentPath_eq_nil hget).mpr hroot
  obtain ⟨parent, hlt, hparent⟩ := hwf.exists_parent hpos hid
  have hparent_lt := Nat.lt_trans hlt hid
  exact ⟨parent, hparent_lt, ((hmirrors.parentPath_eq_path hget hparent_lt).mpr hparent).symm⟩

/-- No document names a subcommand to which an earlier one of the same parent answers. -/
theorem Mirrors.name_notMem (hmirrors : tree.Mirrors done) (hid : id < tree.size) :
    (below done (tree.path id)).Pairwise fun earlier later => later.name ∉ earlier.names := by
  have hpairs : ((tree.children id).map (done[·]?)).Pairwise fun earlier later =>
      ∀ first second, earlier = some first → later = some second →
        second.name ∉ first.names := by
    refine List.pairwise_map.mpr ((hmirrors.described.name_notMem id).imp ?_)
    intro earlier later hnotMem first second hfirst hsecond
    have hnames := (hmirrors.declares earlier first hfirst).names
    rw [Command.names, hnames.1, hnames.2.1, (hmirrors.declares later second hsecond).names.1]
      at hnotMem
    exact hnotMem
  rw [hmirrors.map_children hid, List.pairwise_map] at hpairs
  exact hpairs.imp fun hnotMem => hnotMem _ _ rfl rfl

/-- The documents that a tree mirrors fit together. -/
theorem Mirrors.coherent (hmirrors : tree.Mirrors done) : Coherent done where
  program := ⟨tree.programName, hmirrors.below_nil⟩
  parent_mem document hdocument hempty := by
    obtain ⟨parent, hlt, hpath⟩ := hmirrors.exists_parent hdocument hempty
    obtain ⟨holder, hholder, -, hdeclares⟩ := hmirrors.exists_document hlt
    exact ⟨holder, hholder, hdeclares.path_eq.symm.trans hpath⟩
  name_notMem parent hparent := by
    cases hbelow : below done parent with
    | nil => exact .nil
    | cons document rest =>
      have hmem : document ∈ below done parent := hbelow ▸ List.mem_cons_self
      obtain ⟨hdocument, hpath⟩ := mem_below.mp hmem
      obtain ⟨id, hid, hid_path⟩ := hmirrors.exists_parent hdocument (hpath ▸ hparent)
      have hpairs := hmirrors.name_notMem hid
      rwa [hid_path, hpath, hbelow] at hpairs
  makes document hdocument := by
    obtain ⟨id, -, -, hdeclares⟩ := hmirrors.exists_id hdocument
    obtain ⟨command, hmakes, -⟩ := hdeclares.makes
    exact ⟨command, hmakes⟩
  numbered := by
    refine ⟨tree.positionsTo, rfl, fun document hdocument => ?_⟩
    obtain ⟨id, hid, -, hdeclares⟩ := hmirrors.exists_id hdocument
    have hparent : tree.positionsTo document.parentPath = tree.slotsBefore id := by
      rw [CommandDocument.parentPath, ← hdeclares.path_eq]
      exact hmirrors.described.positionsTo_dropLast hid
    have hpath : tree.positionsTo document.path = tree.subcommandNumber id := by
      rw [← hdeclares.path_eq]
      exact hmirrors.described.positionsTo_path hid
    rw [hparent, hpath, subcommandNumber, positionalNumber, hdeclares.names.2.2]
    exact ⟨rfl, hdeclares.numbered⟩

/-! ## Documents that fit together are read -/

/-- Any count that goes on from parents to subcommands as the documents say gives the numbers of
the slots. -/
theorem Mirrors.subcommandNumber_eq (hmirrors : tree.Mirrors done) {count : List String → Nat}
    (hzero : count [] = 0) (hcount : ∀ document ∈ done,
      count document.path = count document.parentPath + document.positionals.length + 1)
    (hid : id < tree.size) : tree.subcommandNumber id = count (tree.path id) := by
  have hwf := hmirrors.described.built.wellFormed
  induction id using Nat.strongRecOn with
  | _ id ih =>
    obtain ⟨document, hdocument, -, hdeclares⟩ := hmirrors.exists_document hid
    have hslots : tree.slotsBefore id = count document.parentPath := by
      rw [CommandDocument.parentPath, ← hdeclares.path_eq]
      exact hwf.slotsBefore_eq_of_count hzero
        (fun earlier hlt => ih earlier hlt (Nat.lt_trans hlt hid)) hid
    rw [hdeclares.path_eq, hcount document hdocument, subcommandNumber, positionalNumber, hslots,
      hdeclares.names.2.2]

/-- No subcommand in the tree so far answers to the name of the next document. -/
theorem Mirrors.findSubcommand?_eq_none (hmirrors : tree.Mirrors done)
    (hcoherent : Coherent (done ++ document :: rest)) (hempty : document.parentPath ≠ [])
    (hid : id < tree.size) (hpath : tree.path id = document.parentPath) :
    tree.findSubcommand? id document.name = none := by
  have hpairs := hcoherent.name_notMem document.parentPath hempty
  rw [below_append, below_cons, if_pos rfl] at hpairs
  refine List.find?_eq_none.mpr fun child hchild => ?_
  have hholds := (hmirrors.described.built.wellFormed.mem_children id child).mp hchild
  obtain ⟨earlier, hearlier, hget, hdeclares⟩ := hmirrors.exists_document (lt_size_of_parent hholds)
  have hbelow : earlier.parentPath = document.parentPath := by
    rw [← hpath]
    exact (hmirrors.parentPath_eq_path hget hid).mpr hholds
  have hnotMem := (List.pairwise_append.mp hpairs).2.2 earlier
    (mem_below.mpr ⟨hearlier, hbelow⟩) document List.mem_cons_self
  rw [Command.names, hdeclares.names.1, hdeclares.names.2.1]
  simpa [CommandDocument.names] using hnotMem

/-- The next one of documents that fit together is added. -/
theorem Mirrors.exists_addTo (hmirrors : tree.Mirrors done)
    (hcoherent : Coherent (done ++ document :: rest))
    (hsorted : (done ++ document :: rest).Pairwise fun a b => precedes a b)
    (hempty : document.parentPath ≠ []) :
    ∃ next, CommandDocument.addTo tree document = .ok next := by
  have hmem : document ∈ done ++ document :: rest := by simp
  obtain ⟨holder, hholder, hpath⟩ := hcoherent.parent_mem document hmem hempty
  have hshorter : holder.path.length < document.path.length := by
    have hdocument := CommandDocument.path_ne_nil hempty
    rw [hpath, CommandDocument.path_eq hdocument, List.length_append, List.length_singleton]
    omega
  have hdone := CommandDocument.mem_of_length_lt hsorted hholder hshorter
  obtain ⟨parent, hparent, -, hdeclares⟩ := hmirrors.exists_id hdone
  have hparent_path : tree.path parent = document.parentPath := hdeclares.path_eq.trans hpath
  have hfound : tree.findByPath? document.parentPath = some parent := by
    rw [← hparent_path]
    exact hmirrors.described.findByPath?_path hparent
  have hnone := hmirrors.findSubcommand?_eq_none hcoherent hempty hparent hparent_path
  obtain ⟨command, hmakes⟩ := hcoherent.makes document hmem
  have hnumbered : document.IsNumberedFrom (tree.subcommandNumber parent) := by
    obtain ⟨count, hzero, hcount⟩ := hcoherent.numbered
    have hnumber := hmirrors.subcommandNumber_eq hzero
      (fun other hother => (hcount other (List.mem_append_left _ hother)).1) hparent
    rw [hnumber, hparent_path]
    exact (hcount document hmem).2
  exact ⟨_, (CommandDocument.addTo_eq_ok_attach hmirrors.described.built.wellFormed).mpr
    ⟨hempty, parent, hfound, hnone, command, hmakes, hnumbered, rfl⟩⟩

/-- Documents that fit together are added one after the other, in the order of reading. -/
theorem Mirrors.exists_foldlM_addTo (hmirrors : tree.Mirrors done)
    (hcoherent : Coherent (done ++ rest)) (hnames : NamesParents (done ++ rest))
    (hsorted : (done ++ rest).Pairwise fun a b => precedes a b)
    (hempty : ∀ document ∈ rest, document.parentPath ≠ []) :
    ∃ after, rest.foldlM CommandDocument.addTo tree = .ok after := by
  induction rest generalizing tree done with
  | nil => exact ⟨tree, rfl⟩
  | cons document rest ih =>
    obtain ⟨next, hadd⟩ := hmirrors.exists_addTo hcoherent hsorted (hempty document (by simp))
    have hnext := hmirrors.addTo (hmirrors.isNamed hsorted hnames) hadd
    rw [List.append_cons] at hcoherent hnames hsorted
    obtain ⟨after, hrest⟩ := ih hnext hcoherent hnames hsorted
      fun other hother => hempty other (List.mem_cons_of_mem _ hother)
    refine ⟨after, ?_⟩
    rw [List.foldlM_cons, bind_eq_ok]
    exact ⟨next, hadd, hrest⟩

/-- In the order of reading, documents that fit together begin with that of the program. -/
theorem exists_program (hcoherent : Coherent documents)
    (hsorted : documents.Pairwise fun a b => precedes a b) :
    ∃ program rest name, documents = program :: rest ∧ program.path = [name] ∧
      ∀ document ∈ rest, document.parentPath ≠ [] := by
  obtain ⟨name, hname⟩ := hcoherent.program
  obtain ⟨program, hprogram, hpath⟩ := List.map_eq_singleton_iff.mp hname
  have hmem : program ∈ below documents [] := by simp [hprogram]
  obtain ⟨before, rest, rfl⟩ := List.append_of_mem (mem_below.mp hmem).1
  rw [below_append, below_cons, if_pos (mem_below.mp hmem).2] at hprogram
  have hlength := congrArg List.length hprogram
  rw [List.length_append, List.length_cons, List.length_singleton] at hlength
  have hnone : below before [] = [] := List.length_eq_zero_iff.mp (by omega)
  have hrest : below rest [] = [] := List.length_eq_zero_iff.mp (by omega)
  have hbefore : before = [] := by
    refine List.eq_nil_iff_forall_not_mem.mpr fun document hdocument => ?_
    have hle := (List.pairwise_append.mp hsorted).2.2 document hdocument program
      List.mem_cons_self
    rw [precedes, decide_eq_true_eq, hpath, List.length_singleton] at hle
    have hempty : document.parentPath = [] := by
      rw [← List.length_eq_zero_iff, CommandDocument.parentPath, List.length_dropLast]
      omega
    have hbelow := mem_below.mpr ⟨hdocument, hempty⟩
    rw [hnone] at hbelow
    cases hbelow
  refine ⟨program, rest, name, by rw [hbefore, List.nil_append], hpath, ?_⟩
  intro document hdocument hempty
  have hbelow := mem_below.mpr ⟨hdocument, hempty⟩
  rw [hrest] at hbelow
  cases hbelow

/-- Reading starts from the document of the program. -/
theorem exists_applyTo_new {name : String} (hcoherent : Coherent (document :: rest))
    (hpath : document.path = [name]) :
    ∃ start, document.applyTo 0 (CommandTree.new name) = .ok start := by
  have hempty : document.parentPath = [] := by
    rw [CommandDocument.parentPath, hpath]
    rfl
  obtain ⟨command, hmakes⟩ := hcoherent.makes document List.mem_cons_self
  obtain ⟨count, hzero, hcount⟩ := hcoherent.numbered
  have hnumbered := (hcount document List.mem_cons_self).2
  rw [hempty, hzero] at hnumbered
  exact ⟨_, (CommandDocument.applyTo_new_eq_ok hpath).mpr ⟨command, hmakes, hnumbered, rfl⟩⟩

/-- Documents whose parent paths are written with names describe a tree exactly if they fit
together. -/
theorem exists_ofDocuments_iff (hnames : NamesParents documents) :
    (∃ tree, ofDocuments documents = .ok tree) ↔ Coherent documents := by
  have hperm := List.mergeSort_perm documents precedes
  have horder : ∀ parent ≠ [], below (documents.mergeSort precedes) parent =
      below documents parent :=
    fun parent hparent => CommandDocument.below_mergeSort documents hparent
  have hsorted := List.pairwise_mergeSort CommandDocument.precedes_trans
    CommandDocument.precedes_total documents
  constructor
  · rintro ⟨tree, hread⟩
    exact (mirrors_of_ofDocuments hnames hread).coherent.perm hperm horder
  · intro hcoherent
    have hcoherent_sorted := hcoherent.perm hperm.symm fun parent hparent =>
      (horder parent hparent).symm
    have hnames_sorted := hnames.perm hperm.symm
    obtain ⟨program, rest, name, hsplit, hpath, hrest⟩ := exists_program hcoherent_sorted hsorted
    rw [hsplit] at hcoherent_sorted hnames_sorted hsorted
    obtain ⟨start, hstart⟩ := exists_applyTo_new hcoherent_sorted hpath
    obtain ⟨tree, hread⟩ := (Mirrors.program hpath hstart).exists_foldlM_addTo hcoherent_sorted
      hnames_sorted hsorted hrest
    exact ⟨tree, ofDocuments_eq_ok.mpr ⟨program, rest, name, start, hsplit, hpath, hstart, hread⟩⟩

end CommandTree
end ShellCompletion
