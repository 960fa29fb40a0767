import ShellCompletion.Proofs.CommandLine.OptionList
import ShellCompletion.Proofs.Scope.Declarations
import ShellCompletion.Proofs.Specification

/-!
# Option lists of commands

The helpers of a script read the option list of a command. They get the table of the command
back if all its option strings can be told apart in the list; the check of option strings does
not see to that.
-/

namespace ShellCompletion

variable {scope : Scope} {entry : OptionEntry}

/-- The entries of a scope's table are for strings of options. -/
theorem Scope.exists_of_mem_optionTable (hentry : entry ∈ scope.optionTable.entries) :
    ∃ option : CommandOption, entry.option ∈ option.strings := by
  obtain ⟨option, -, hstring⟩ := OptionTable.exists_of_mem_ofOptions hentry
  exact ⟨option, hstring⟩

namespace CommandTree

/-- The table of a command comes back from its option list exactly if all its entries can be
written in a list. -/
theorem exists_parse_optionTable_iff (tree : CommandTree) (config : Config) (id : Nat) :
    (∃ read, OptionTable.parse (tree.scope config id).optionTable.render = .ok read ∧
        read.entries = (tree.scope config id).optionTable.entries) ↔
      ∀ entry ∈ (tree.scope config id).optionTable.entries, entry.IsPlain := by
  refine OptionTable.exists_parse_render_iff (OptionTable.nodup_ofEntries _) ?_
  intro entry hentry
  obtain ⟨option, hstring⟩ := Scope.exists_of_mem_optionTable hentry
  exact CommandOption.isListable_of_mem hstring

/-- The document of a program with a comma in an option string. -/
def commaDocument : CommandDocument where
  prog := "prog"
  options := [{ optionStrings := ["--a,b"], takesArgs := .absent }]

/-- The option of the document. -/
def commaOption : CommandOption :=
  CommandOption.ofStrings ["--a,b"] (by decide)

/-- The tree that is read from the document. -/
def withComma : CommandTree :=
  ⟨#[{ command := { name := "prog", options := [commaOption] } }]⟩

/-- The tree is read from the document. -/
theorem ofDocuments_commaDocument : ofDocuments [commaDocument] = .ok withComma := by
  rw [ofDocuments, List.mergeSort_singleton]
  simp only [CommandDocument.applyTo, CommandDocument.orderedPositionals,
    List.foldlM_cons, List.foldlM_nil, commaDocument, List.mergeSort_nil]
  rfl

/-- The option list of an accepted program is not read if an option string has a comma. -/
theorem parse_optionTable_ne_of_comma : ∃ tree,
    ofDocuments [commaDocument] = .ok tree ∧ tree.Accepted ∧
      OptionTable.parse (tree.scope {} 0).optionTable.render =
        .error (.invalidOption (.badListItem "b")) := by
  have hbuilt : withComma.Built :=
    (Built.new "prog").addOptions Nat.one_pos (List.pairwise_singleton _ commaOption)
  have hlist : (withComma.scope {} 0).optionTable.render = "--a,b" := by decide +kernel
  refine ⟨withComma, ofDocuments_commaDocument, ⟨hbuilt, rfl⟩, ?_⟩
  rw [hlist]
  rfl

end CommandTree
end ShellCompletion
