import ShellCompletion.Proofs.CommandLine.Reading
import ShellCompletion.Proofs.Scope.Declarations
import ShellCompletion.Proofs.Specification
import ShellCompletion.Proofs.Spellings

/-!
# Handing over to a subcommand

A command reads the line with its own table and hands over to a subcommand once the word
that selects it is there. The subcommand reads the whole line again with its own table.
Both count the same positional words unless a word makes only one of the tables wait for a
value.
-/

namespace ShellCompletion.CommandTree

variable {tree : CommandTree} {config : Config} {parent child : Nat}

/-- A command hands over to a subcommand: the positional word in the slot of the command is
one of those that select the subcommand. -/
def HandsOver (tree : CommandTree) (config : Config) (parent child : Nat)
    (words : List String) : Prop :=
  let scope := tree.scope config parent
  ∃ subcommand ∈ scope.subcommands[tree.place child]?,
    ∃ word ∈ (scope.optionTable.parseLine words).positional? scope.subcommandNumber,
      word ∈ subcommand.words

instance (tree : CommandTree) (config : Config) (parent child : Nat) (words : List String) :
    Decidable (tree.HandsOver config parent child words) :=
  inferInstanceAs (Decidable (∃ subcommand ∈ _, ∃ word ∈ _, _))

/-! ## Names of subcommands -/

/-- The place of a subcommand is the one it has in the list of its parent. -/
theorem WellFormed.getElem?_children_place (hwf : tree.WellFormed)
    (hchild : child ∈ tree.children parent) :
    (tree.children parent)[tree.place child]? = some child := by
  rw [place, (hwf.mem_children parent child).mp hchild]
  exact List.getElem?_idxOf hchild

/-- No subcommand before another one answers to its name. -/
theorem Accepted.name_notMem_earlier (haccepted : tree.Accepted)
    (hchild : child ∈ tree.children parent) {earlier : Nat} (hlt : earlier < tree.place child) :
    (tree.command child).name ∉
      ((tree.children parent).map fun other => (tree.command other).names)[earlier]?.getD [] := by
  have hwf := haccepted.built.wellFormed
  have hparent : parent < tree.size :=
    Nat.lt_trans (hwf.lt_of_mem_children hchild) (hwf.lt_size_of_mem hchild)
  have hnames := nodup_names_children (haccepted.commandFault?_eq_none hparent)
  obtain ⟨hplace, hget⟩ := List.getElem?_eq_some_iff.mp (hwf.getElem?_children_place hchild)
  have hdisjoint := List.pairwise_iff_getElem.mp (List.nodup_flatMap.mp hnames).2 earlier
    (tree.place child) (Nat.lt_trans hlt hplace) hplace hlt
  rw [hget] at hdisjoint
  rw [List.getElem?_map, List.getElem?_eq_getElem (Nat.lt_trans hlt hplace)]
  exact fun hmem => hdisjoint hmem List.mem_cons_self

/-- The name of a subcommand is among the words that select it. -/
theorem Accepted.exists_subcommand (haccepted : tree.Accepted)
    (hchild : child ∈ tree.children parent) (config : Config) :
    ∃ subcommand, (tree.scope config parent).subcommands[tree.place child]? = some subcommand ∧
      (tree.command child).name ∈ subcommand.words := by
  have hplace := haccepted.built.wellFormed.getElem?_children_place hchild
  have hcommand : (tree.scope config parent).own.subcommands[tree.place child]? =
      some (tree.command child) := by
    change ((tree.children parent).map tree.command)[_]? = _
    rw [List.getElem?_map, hplace]
    rfl
  rw [Scope.subcommands, List.getElem?_map, List.getElem?_zipIdx, hcommand]
  refine ⟨_, rfl, Spellings.mem_wordsOf_of_mem ?_ fun earlier hlt => ?_⟩
  · rw [List.getElem?_map, Nat.zero_add, hcommand]
    exact List.mem_cons_self
  · change _ ∉ (((tree.children parent).map tree.command).map _)[_]?.getD []
    rw [List.map_map]
    exact haccepted.name_notMem_earlier hchild (by simpa using hlt)

/-- The name of a command that can be used as a word is plain and not empty. -/
theorem plain_of_isCommandName {name : String} (hname : isCommandName name = true) :
    OptionTable.isPlainWord name = true ∧ name ≠ "" := by
  rw [isCommandName] at hname
  cases hchars : name.toList with
  | nil => simp [hchars] at hname
  | cons first rest =>
    have hfirst : first ≠ '-' := by
      rintro rfl
      simp [hchars, show Char.isAlphanum '-' = false by decide] at hname
    refine ⟨?_, fun hempty => by simp [hempty] at hchars⟩
    simp [OptionTable.isPlainWord, Text.beginsWith, hchars, List.isPrefixOf, Ne.symm hfirst]

/-! ## When both readings agree -/

/-- A command hands over to a subcommand whose name is in its slot. -/
theorem Accepted.handsOver (haccepted : tree.Accepted) (hchild : child ∈ tree.children parent)
    {words : List String}
    (hslot : ((tree.scope config parent).optionTable.parseLine words).positional?
      (tree.scope config parent).subcommandNumber = some (tree.command child).name) :
    tree.HandsOver config parent child words := by
  obtain ⟨subcommand, hsubcommand, hname⟩ := haccepted.exists_subcommand hchild config
  exact ⟨subcommand, hsubcommand, _, hslot, hname⟩

/-- A command and a subcommand count the same positional words, up to the one that selects
the subcommand, on every line whose words make both tables wait for a value or none before
that word is reached. They do so on every line on which the command hands over exactly if
every word makes both tables wait or none. -/
theorem take_positionals_eq_iff (haccepted : tree.Accepted)
    (hchild : child ∈ tree.children parent) (config : Config) :
    let outer := (tree.scope config parent).optionTable
    let inner := (tree.scope config child).optionTable
    let number := (tree.scope config parent).subcommandNumber
    (∀ before after, (∀ word ∈ before, inner.waits word = outer.waits word) →
      number ≤ (outer.parseLine before).positionals.length →
        (inner.parseLine (before ++ after)).positionals.take number =
          (outer.parseLine (before ++ after)).positionals.take number) ∧
    ((∀ words, tree.HandsOver config parent child words →
        (inner.parseLine words).positionals.take number =
          (outer.parseLine words).positionals.take number) ↔
      ∀ word, inner.waits word = outer.waits word) := by
  intro outer inner number
  refine ⟨fun before after hwaits hcount => ?_, fun hsame word => ?_, fun hwaits words _ => ?_⟩
  · have hagree : OptionTable.Agree (before.foldl inner.step {}) (before.foldl outer.step {}) :=
      OptionTable.Agree.foldl ⟨rfl, rfl⟩ hwaits
    have hbefore : (inner.parseLine before).positionals = (outer.parseLine before).positionals :=
      hagree.positionals
    rw [OptionTable.take_positionals_append hcount,
      OptionTable.take_positionals_append (hbefore ▸ hcount), hbefore]
  · have hsound := haccepted.commandFault?_eq_none
      (haccepted.built.wellFormed.lt_size_of_mem hchild)
    obtain ⟨hplain, hne⟩ := plain_of_isCommandName (isCommandName_of_mem hsound List.mem_cons_self)
    by_contra hdiffer
    obtain ⟨words, hslot, htake⟩ := OptionTable.exists_take_ne hdiffer hplain hne
    exact htake (hsame words (haccepted.handsOver hchild hslot))
  · have hagree : OptionTable.Agree (words.foldl inner.step {}) (words.foldl outer.step {}) :=
      OptionTable.Agree.foldl ⟨rfl, rfl⟩ fun word _ => hwaits word
    exact congrArg (List.take number) hagree.positionals

/-- A subcommand without options of its own reads lines with the table of the command that
holds it, if both accept abbreviations or none. -/
theorem WellFormed.optionTable_eq_of_options_nil (hwf : tree.WellFormed)
    (hchild : child ∈ tree.children parent) (hoptions : (tree.command child).options = [])
    (habbreviate : (tree.scope config child).abbreviateOptions =
      (tree.scope config parent).abbreviateOptions) :
    (tree.scope config child).optionTable = (tree.scope config parent).optionTable := by
  have hlevels : (tree.scope config child).levels =
      tree.level child :: (tree.scope config parent).levels := by
    change (tree.lineage child).map tree.level = _
    rw [hwf.lineage_eq ((hwf.mem_children parent child).mp hchild)]
    rfl
  have hnone : (tree.level child).command.declarations (tree.scope config parent).levels.length =
      [] := by
    change (tree.command child).declarations _ = []
    rw [Command.declarations, hoptions]
    rfl
  rw [Scope.optionTable, habbreviate, Scope.knownOptions, hlevels, Scope.declarationsOf, hnone]
  rfl

/-- An option with a value. -/
def outputOption : CommandOption :=
  { CommandOption.ofStrings ["-o"] (by decide) with arity := .required }

/-- The premises hold of a program with an option and a subcommand without any. -/
theorem take_positionals_eq_iff_output :
    let tree := withHeir [outputOption] []
    let outer := (tree.scope {} 0).optionTable
    let inner := (tree.scope {} 1).optionTable
    let number := (tree.scope {} 0).subcommandNumber
    tree.Accepted ∧ 1 ∈ tree.children 0 ∧
      (∀ before after, (∀ word ∈ before, inner.waits word = outer.waits word) →
        number ≤ (outer.parseLine before).positionals.length →
          (inner.parseLine (before ++ after)).positionals.take number =
            (outer.parseLine (before ++ after)).positionals.take number) ∧
      ((∀ words, tree.HandsOver {} 0 1 words →
          (inner.parseLine words).positionals.take number =
            (outer.parseLine words).positionals.take number) ↔
        ∀ word, inner.waits word = outer.waits word) := by
  have haccepted : (withHeir [outputOption] []).Accepted :=
    ⟨built_withHeir (List.pairwise_singleton _ _) .nil, rfl⟩
  have hchild : 1 ∈ (withHeir [outputOption] []).children 0 := List.mem_singleton_self 1
  exact ⟨haccepted, hchild, take_positionals_eq_iff haccepted hchild {}⟩

/-- The document of a program that writes to a file. -/
def outputDocument : CommandDocument where
  prog := "prog"
  options := [{ optionStrings := ["-o"] }]

/-- The document of a subcommand with a flag under the string of the program's option. -/
def flagDocument : CommandDocument where
  prog := "prog sub"
  inheritOptions := .set true
  options := [{ optionStrings := ["-o"], takesArgs := .absent }]

/-- The tree that is read from the two documents. -/
def redeclaring : CommandTree :=
  withHeir [outputOption] [CommandOption.ofStrings ["-o"] (by decide)]

/-- The tree is read from the two documents. -/
theorem ofDocuments_flagDocument :
    ofDocuments [outputDocument, flagDocument] = .ok redeclaring := by
  have hname : outputDocument.path = ["prog"] := by decide +kernel
  rw [ofDocuments_pair hname (by decide +kernel)]
  simp only [CommandDocument.applyTo, CommandDocument.addTo, CommandDocument.orderedPositionals,
    List.foldlM_cons, List.foldlM_nil, outputDocument, flagDocument, List.mergeSort_nil]
  rfl

/-- The program takes the word after its option as a value and hands over at the next one. The
subcommand takes that value for the first positional word. -/
theorem take_positionals_ne_of_redeclared : ∃ tree,
    ofDocuments [outputDocument, flagDocument] = .ok tree ∧ tree.Accepted ∧
      1 ∈ tree.children 0 ∧ tree.HandsOver {} 0 1 ["-o", "file", "sub"] ∧
        ((tree.scope {} 1).optionTable.parseLine ["-o", "file", "sub"]).positionals.take
            (tree.scope {} 0).subcommandNumber ≠
          ((tree.scope {} 0).optionTable.parseLine ["-o", "file", "sub"]).positionals.take
            (tree.scope {} 0).subcommandNumber := by
  have hbuilt : redeclaring.Built :=
    built_withHeir (List.pairwise_singleton _ _) (List.pairwise_singleton _ _)
  refine ⟨redeclaring, ofDocuments_flagDocument, ⟨hbuilt, rfl⟩, List.mem_singleton_self 1, ?_, ?_⟩
  · decide +kernel
  · decide +kernel

end ShellCompletion.CommandTree
