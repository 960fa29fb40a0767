import ShellCompletion.Proofs.CommandTree.Counterparts
import ShellCompletion.Proofs.Document.Coherent

/-!
# The order of documents

Documents may come in any order. Those of the same parent keep theirs, because subcommands are
offered in it and no earlier one may answer to the name of a later one. Apart from that, neither
whether documents are accepted nor the tree depends on their order, although the commands have
other numbers in it.
-/

namespace ShellCompletion.CommandTree

open CommandDocument (NamesParents Coherent below precedes)

variable {tree other : CommandTree} {a b : Nat} {document : CommandDocument}
  {documents others : List CommandDocument}

/-! ## Trees that mirror the same documents -/

/-- Two commands that the same document declares are the same if both or neither have
subcommands. -/
theorem command_eq_of_declares (hfirst : document.Declares tree a)
    (hsecond : document.Declares other b)
    (hchildren : tree.children a = [] ↔ other.children b = []) :
    tree.command a = other.command b := by
  obtain ⟨command, hmakes, hcommand⟩ := hfirst.makes
  obtain ⟨again, hagain, hcommand_other⟩ := hsecond.makes
  rw [hcommand, hcommand_other, hmakes.unique hagain]
  simp only [hchildren]

/-- Commands of the same document are the same with everything below them. -/
theorem Mirrors.sameFrom (hmirrors : tree.Mirrors documents) (hmirrors_other : other.Mirrors others)
    (horder : ∀ parent ≠ [], below documents parent = below others parent) (depth : Nat)
    (ha : documents[a]? = some document) (hb : others[b]? = some document) :
    tree.sameFrom other depth a b = true := by
  induction depth generalizing a b document with
  | zero => rfl
  | succ depth ih =>
    have hdeclares := hmirrors.declares a document ha
    have hdeclares_other := hmirrors_other.declares b document hb
    -- In both trees the subcommands are those of the same documents, in the same order.
    have hbelow : (tree.children a).map (documents[·]?) = (other.children b).map (others[·]?) := by
      rw [hmirrors.map_children (hmirrors.lt_size ha),
        hmirrors_other.map_children (hmirrors_other.lt_size hb), hdeclares.path_eq,
        hdeclares_other.path_eq, horder document.path (hdeclares.path_eq ▸ path_ne_nil tree a)]
    have hlength : (tree.children a).length = (other.children b).length := by
      simpa using congrArg List.length hbelow
    have hchildren : tree.children a = [] ↔ other.children b = [] := by
      rw [← List.length_eq_zero_iff, hlength, List.length_eq_zero_iff]
    refine sameFrom_succ.mpr ⟨command_eq_of_declares hdeclares hdeclares_other hchildren, hlength,
      fun place c d hc hd => ?_⟩
    have hplace : documents[c]? = others[d]? := by
      have hsame := congrArg (fun list => list[place]?) hbelow
      simpa [hc, hd] using hsame
    have hlt := (hmirrors.described.built.wellFormed).lt_size_of_mem (List.mem_of_getElem? hc)
    obtain ⟨below_document, -, hget, -⟩ := hmirrors.exists_document hlt
    exact ih hget (hplace ▸ hget)

/-- Trees that mirror the same documents, those of the same parent in the same order, are the
same. -/
theorem Mirrors.same (hmirrors : tree.Mirrors documents) (hmirrors_other : other.Mirrors others)
    (hperm : documents.Perm others)
    (horder : ∀ parent ≠ [], below documents parent = below others parent) :
    tree.same other = true := by
  have hpos := hmirrors.described.built.wellFormed.size_pos
  obtain ⟨program, hprogram, hzero, -⟩ := hmirrors.exists_document hpos
  have hempty := (hmirrors.parentPath_eq_nil hzero).mpr rfl
  obtain ⟨root, -, hget, -⟩ := hmirrors_other.exists_id (hperm.mem_iff.mp hprogram)
  obtain rfl := (hmirrors_other.parentPath_eq_nil hget).mp hempty
  exact hmirrors.sameFrom hmirrors_other horder tree.size hzero hget

/-! ## Documents in any order -/

/-- Of two orders of the same documents in which those of the same parent keep theirs, both are
accepted or both are rejected, and the trees that they describe are the same, as long as parent
paths are written with names. -/
theorem ofDocuments_perm (hperm : documents.Perm others)
    (horder : ∀ parent ≠ [], below documents parent = below others parent)
    (hnames : NamesParents documents) :
    ((∃ tree, ofDocuments documents = .ok tree) ↔ ∃ other, ofDocuments others = .ok other) ∧
      ∀ tree other, ofDocuments documents = .ok tree → ofDocuments others = .ok other →
        tree.same other = true ∧ other.same tree = true := by
  have hnames_other : NamesParents others := hnames.perm hperm
  refine ⟨?_, fun tree other hread hread_other => ?_⟩
  · rw [exists_ofDocuments_iff hnames, exists_ofDocuments_iff hnames_other]
    constructor
    · intro hcoherent
      exact hcoherent.perm hperm horder
    · intro hcoherent
      exact hcoherent.perm hperm.symm fun parent hparent => (horder parent hparent).symm
  · have hmirrors := mirrors_of_ofDocuments hnames hread
    have hmirrors_other := mirrors_of_ofDocuments hnames_other hread_other
    have hsorted : (documents.mergeSort precedes).Perm (others.mergeSort precedes) :=
      (List.mergeSort_perm documents precedes).trans
        (hperm.trans (List.mergeSort_perm others precedes).symm)
    have hsorted_order : ∀ parent ≠ [], below (documents.mergeSort precedes) parent =
        below (others.mergeSort precedes) parent := by
      intro parent hparent
      rw [CommandDocument.below_mergeSort documents hparent,
        CommandDocument.below_mergeSort others hparent, horder parent hparent]
    exact ⟨hmirrors.same hmirrors_other hsorted hsorted_order,
      hmirrors_other.same hmirrors hsorted.symm fun parent hparent =>
        (hsorted_order parent hparent).symm⟩

/-- The documents of a program with two subcommands, of which the first one has a subcommand. -/
def remoteDocuments : List CommandDocument :=
  [{ prog := "git" }, { prog := "git remote" }, { prog := "git stash", aliases := ["st"] },
    { prog := "git remote add" }]

/-- The document of a subcommand of the second one. -/
def popDocument : CommandDocument where
  prog := "git stash pop"

/-- The tree of these documents if that one comes last. -/
def stashing : CommandTree := ⟨#[
  { command := { name := "git", slot := some {} }, children := [1, 2] },
  { command := { name := "remote", slot := some {} }, parent := some 0, children := [3] },
  { command := { name := "stash", aliases := ["st"], slot := some {} }, parent := some 0,
    children := [4] },
  { command := { name := "add" }, parent := some 1 },
  { command := { name := "pop" }, parent := some 2 }]⟩

/-- The tree is read from the documents. -/
theorem ofDocuments_popDocument :
    ofDocuments (remoteDocuments ++ [popDocument]) = .ok stashing := by
  have hsorted : (remoteDocuments ++ [popDocument]).mergeSort
      (fun a b => a.path.length ≤ b.path.length) = remoteDocuments ++ [popDocument] :=
    List.mergeSort_of_pairwise (by decide +kernel)
  rw [ofDocuments, hsorted]
  simp only [remoteDocuments, popDocument, List.cons_append, List.nil_append,
    CommandDocument.applyTo, CommandDocument.addTo, CommandDocument.orderedPositionals,
    List.foldlM_cons, List.foldlM_nil, List.mergeSort_nil]
  rfl

/-- The document may as well come first, although the commands get other numbers then. -/
theorem ofDocuments_perm_stashing :
    (remoteDocuments ++ [popDocument]).Perm (popDocument :: remoteDocuments) ∧
      (∀ parent ≠ [], below (remoteDocuments ++ [popDocument]) parent =
        below (popDocument :: remoteDocuments) parent) ∧
      NamesParents (remoteDocuments ++ [popDocument]) ∧
      ∃ other, ofDocuments (popDocument :: remoteDocuments) = .ok other ∧
        stashing.same other = true ∧ other.same stashing = true := by
  have hperm : (remoteDocuments ++ [popDocument]).Perm (popDocument :: remoteDocuments) :=
    List.perm_append_comm
  have horder : ∀ parent ≠ [], below (remoteDocuments ++ [popDocument]) parent =
      below (popDocument :: remoteDocuments) parent := by
    intro parent _
    have hpop : popDocument.parentPath = ["git", "stash"] := by decide +kernel
    rw [CommandDocument.below_append, CommandDocument.below_cons, CommandDocument.below_cons, hpop]
    split
    · rename_i hparent
      have hnone : below remoteDocuments parent = [] := by
        rw [← hparent]
        exact List.filter_eq_nil_iff.mpr (by decide +kernel)
      rw [hnone]
      rfl
    · exact List.append_nil _
  have hnames : NamesParents (remoteDocuments ++ [popDocument]) := by
    unfold NamesParents
    decide +kernel
  obtain ⟨haccepted, hsame⟩ := ofDocuments_perm hperm horder hnames
  obtain ⟨other, hread⟩ := haccepted.mp ⟨stashing, ofDocuments_popDocument⟩
  exact ⟨hperm, horder, hnames, other, hread, hsame stashing other ofDocuments_popDocument hread⟩

end ShellCompletion.CommandTree
