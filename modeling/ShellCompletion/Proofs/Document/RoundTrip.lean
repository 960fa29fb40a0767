import ShellCompletion.Proofs.Document.Reading
import ShellCompletion.Proofs.Document.Written

/-!
# Reading exported documents

The documents of a tree that was read from documents describe the same tree again, and
nothing is lost when they are written as data in between.
-/

namespace ShellCompletion.CommandTree

variable {tree : CommandTree} {done : List Nat}

/-- A part with all commands is the tree with other numbers. -/
theorem Grows.renumbers_part (hgrows : tree.Grows done) (hwf : tree.WellFormed)
    (hall : ∀ id < tree.size, id ∈ done) : tree.Renumbers (tree.part done) done.idxOf := by
  have hfilter : ∀ id, (tree.children id).filter (· ∈ done) = tree.children id := by
    intro id
    refine List.filter_eq_self.mpr fun child hchild => decide_eq_true ?_
    exact hall child (hwf.lt_size_of_mem hchild)
  have hslot : ∀ id, tree.slotAmong done id = (tree.command id).slot := by
    intro id
    have hdocument := tree.slotDocument_eq id
    rw [slotAmong, hfilter]
    split
    · rfl
    · rename_i hnone
      rw [not_or, Option.not_isSome_iff_eq_none] at hnone
      rw [hnone.1, if_neg fun h => hnone.2 h.2] at hdocument
      exact hdocument
  have hperm : done.Perm tree.ids := by
    refine (List.perm_ext_iff_of_nodup hgrows.nodup List.nodup_range).mpr fun id => ?_
    rw [List.mem_range]
    exact ⟨hgrows.lt_size hwf id, hall id⟩
  refine ⟨?_, ?_, ?_, ?_, ?_⟩
  · rw [size_part, hperm.length_eq, ids, List.length_range]
  · rw [hgrows.eq_cons, List.idxOf_cons_self]
  · intro id hid
    rw [command, node_part_idxOf (hall id hid), partNode, hslot]
  · intro id hid
    rw [children, node_part_idxOf (hall id hid), partNode, hfilter]
  · intro id hid
    exact hgrows.ancestors_part hwf (hall id hid)

/-- Data keeps the list form of every completion. -/
theorem areKept_toDocument (completion : Completion) :
    ∀ items ∈ completion.toDocument, Json.AreKept items := by
  intro items hitems
  rw [Completion.toDocument] at hitems
  split at hitems
  · cases hitems
  · cases hitems
    exact completion.areKept_toList

/-- Data keeps the list forms in every document of a tree. -/
theorem isKept_document (tree : CommandTree) (id : Nat) : (tree.document id).IsKept := by
  refine ⟨fun option hoption => ?_, fun positional hpositional => ?_⟩
  · obtain ⟨declared, -, rfl⟩ := List.mem_map.mp hoption
    exact areKept_toDocument declared.completion
  · obtain ⟨⟨declared, place⟩, -, rfl⟩ := List.mem_map.mp hpositional
    exact areKept_toDocument declared.completion

/-- Exported documents are read back from the data they are written as. -/
theorem mapM_read_toJson_toDocuments (tree : CommandTree) :
    (tree.toDocuments.mapM fun document => CommandDocument.shape.read document.toJson.toData) =
      .ok tree.toDocuments := by
  rw [mapM_eq_ok, List.forall₂_same]
  intro document hdocument
  obtain ⟨id, -, rfl⟩ := List.mem_map.mp hdocument
  exact (tree.document id).read_toJson (tree.isKept_document id)

/-- Import undoes export: the documents of a tree that was read from documents are
accepted again, also after they were written as data with the default fields left out. The
tree they describe is the same, and it has exactly the same documents. -/
theorem ofDocuments_toDocuments {documents : List CommandDocument}
    (hread : ofDocuments documents = .ok tree) :
    (tree.toDocuments.mapM fun document => CommandDocument.shape.read document.toJson.toData) =
        .ok tree.toDocuments ∧
      ∃ again, ofDocuments tree.toDocuments = .ok again ∧
        (tree.same again = true ∧ again.same tree = true) ∧
        again.toDocuments = tree.toDocuments := by
  have htree := described_of_ofDocuments hread
  have hwf := htree.built.wellFormed
  have hnumber := hwf.grows_readingOrder.renumbers_part hwf fun id hid =>
    hwf.mem_readingOrder.mpr hid
  exact ⟨tree.mapM_read_toJson_toDocuments, _, htree.ofDocuments_toDocuments_eq,
    hnumber.same hwf, hnumber.toDocuments hwf⟩

/-- A subcommand with an alias and its program, whose documents come in the wrong order. -/
private theorem ofDocuments_remote :
    ofDocuments [{ prog := "git remote", aliases := ["rmt"] }, { prog := "git" }] =
      .ok ⟨#[{ command := { name := "git", slot := some {} }, children := [1] },
        { command := { name := "remote", aliases := ["rmt"] }, parent := some 0 }]⟩ := by
  let program : CommandDocument := { prog := "git" }
  let remote : CommandDocument := { prog := "git remote", aliases := ["rmt"] }
  have hpath : ¬ remote.path.length ≤ program.path.length := by decide +kernel
  have hsorted : [remote, program].mergeSort (fun a b => a.path.length ≤ b.path.length) =
      [program, remote] := by
    simp [List.mergeSort, List.MergeSort.Internal.splitInTwo, hpath]
  rw [ofDocuments, hsorted]
  simp only [CommandDocument.applyTo, CommandDocument.addTo, CommandDocument.orderedPositionals,
    List.foldlM_cons, List.foldlM_nil, program, remote, List.mergeSort_nil]
  rfl

/-- Reading these two documents, exporting the tree and reading again gives the same. -/
theorem ofDocuments_toDocuments_remote : ∃ tree,
    ofDocuments [{ prog := "git remote", aliases := ["rmt"] }, { prog := "git" }] = .ok tree ∧
      (tree.toDocuments.mapM fun document =>
        CommandDocument.shape.read document.toJson.toData) = .ok tree.toDocuments ∧
      ∃ again, ofDocuments tree.toDocuments = .ok again ∧
        (tree.same again = true ∧ again.same tree = true) ∧
        again.toDocuments = tree.toDocuments :=
  ⟨_, ofDocuments_remote, ofDocuments_toDocuments ofDocuments_remote⟩

end ShellCompletion.CommandTree
