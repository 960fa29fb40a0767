import ShellCompletion.Proofs.Document.Described
import ShellCompletion.Proofs.Validation
import ShellCompletion.Specification

/-!
# Accepted specifications

A text is accepted as a specification if documents can be read from it, the documents
describe a tree, and no command of the tree has a fault. What holds of all trees that
operations build and that have no faults holds of all accepted ones.
-/

namespace ShellCompletion.CommandTree

variable {tree : CommandTree}

/-- A tree that operations build and whose commands have no faults. -/
structure Accepted (tree : CommandTree) : Prop where
  /-- Operations build the tree. -/
  built : tree.Built
  /-- The tree passes the strict checks of its structure. -/
  sound : (tree.checkStructure true).outcome.2 = .ok ()

/-- The tree that a text describes is read from documents. -/
theorem exists_documents_of_ofText {format : Format} {text : String}
    (hread : ofText format text = .ok tree) : ∃ documents, ofDocuments documents = .ok tree := by
  cases format with
  | json =>
    change ofJson text = _ at hread
    unfold ofJson at hread
    split at hread
    · cases hread
    · split at hread
      · cases hread
      · split at hread
        · exact ⟨_, hread⟩
        · cases hread
  | yaml =>
    obtain ⟨documents, -, hdocuments⟩ := bind_eq_ok.mp hread
    exact ⟨_, hdocuments⟩

/-- The document of a program is read before that of a subcommand. -/
theorem ofDocuments_pair {program sub : CommandDocument} {name : String}
    (hname : program.path = [name]) (hsub : sub.path ≠ []) :
    ofDocuments [program, sub] =
      program.applyTo 0 (new name) >>= fun tree => CommandDocument.addTo tree sub := by
  have hle : program.path.length ≤ sub.path.length := by
    rw [hname]
    exact List.length_pos_iff.mpr hsub
  have hsorted : [program, sub].mergeSort (fun a b => a.path.length ≤ b.path.length) =
      [program, sub] := by
    simp [List.mergeSort, List.MergeSort.Internal.splitInTwo, hle]
  rw [ofDocuments, hsorted]
  simp only [hname, List.foldlM_cons, List.foldlM_nil, bind_pure]

/-- A computation that succeeds after a check gives what it gives without, and passes the
check. -/
theorem outcome_check_bind {α : Type} {check : Logged Unit} {value result : α}
    (hrun : (check >>= fun _ => pure value : Logged α).outcome.2 = .ok result) :
    check.outcome.2 = .ok () ∧ value = result := by
  obtain ⟨warnings, hrun⟩ := Logged.outcome_eq_ok.mp hrun
  obtain ⟨_, _, hcheck, hvalue⟩ := bind_apply_eq_ok.mp hrun
  cases hvalue
  exact ⟨Logged.outcome_eq_ok.mpr ⟨_, hcheck⟩, rfl⟩

/-- A tree that reading a text gives is the one that the text describes, and passes the checks of
its structure. -/
theorem ofText_of_parse {format : Format} {text : String}
    (hparse : (parse format text).outcome.2 = .ok tree) :
    ofText format text = .ok tree ∧ (tree.checkStructure true).outcome.2 = .ok () := by
  unfold parse at hparse
  cases hread : ofText format text with
  | error error =>
    rw [hread] at hparse
    cases hparse
  | ok described =>
    rw [hread] at hparse
    obtain ⟨hsound, rfl⟩ := outcome_check_bind hparse
    exact ⟨rfl, hsound⟩

/-- Every tree that reading a text gives is accepted. -/
theorem accepted_of_parse {format : Format} {text : String}
    (hparse : (parse format text).outcome.2 = .ok tree) : tree.Accepted := by
  obtain ⟨hread, hsound⟩ := ofText_of_parse hparse
  obtain ⟨documents, hdocuments⟩ := exists_documents_of_ofText hread
  exact ⟨(described_of_ofDocuments hdocuments).built, hsound⟩

/-- No command of an accepted tree has a fault. -/
theorem Accepted.commandFault?_eq_none (haccepted : tree.Accepted) {id : Nat}
    (hid : id < tree.size) : tree.commandFault? true id = none :=
  checkStructure_eq_ok.mp haccepted.sound id hid

end ShellCompletion.CommandTree
