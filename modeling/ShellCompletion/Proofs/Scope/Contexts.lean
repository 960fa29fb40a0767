import ShellCompletion.Proofs.CommandTree.Positions
import ShellCompletion.Proofs.Guard.Eval
import ShellCompletion.Proofs.Scope.HandOver
import ShellCompletion.Proofs.Spellings.Groups

/-!
# Contexts of commands

A command line is inside a command if the words in the slots of all enclosing commands
select the next command on the way. Where the ways to two commands part, one word would have
to select two subcommands. But the line is read once for each of the commands, with the table
of the command, and the two readings need not find the same word there.
-/

namespace ShellCompletion.CommandTree

variable {tree : CommandTree} {config : Config} {a b id parent child : Nat}

/-! ## Words that select commands -/

/-- The positional word in the slot of a command is one of those that select a subcommand. -/
def Selects (tree : CommandTree) (config : Config) (parent child : Nat) (line : ParsedLine) :
    Prop :=
  ∃ subcommand ∈ (tree.scope config parent).subcommands[tree.place child]?,
    ∃ word ∈ line.positional? (tree.scope config parent).subcommandNumber,
      word ∈ subcommand.words

/-- A command line is inside a command, as the command itself reads the line. -/
def Inside (tree : CommandTree) (config : Config) (id : Nat) (words : List String) : Prop :=
  let scope := tree.scope config id
  scope.context.holds (scope.optionTable.parseLine words) = true

instance (tree : CommandTree) (config : Config) (id : Nat) (words : List String) :
    Decidable (tree.Inside config id words) :=
  inferInstanceAs (Decidable (_ = true))

/-- There is an entry for every subcommand of a command. -/
theorem WellFormed.exists_subcommand_words (hwf : tree.WellFormed)
    (hchild : child ∈ tree.children parent) (config : Config) :
    ∃ subcommand, (tree.scope config parent).subcommands[tree.place child]? = some subcommand ∧
      subcommand.words = (Spellings.new ((tree.children parent).map fun other =>
        (tree.command other).names) minCommandBeginning
          (tree.scope config parent).abbreviateCommands).wordsOf (tree.place child) := by
  have hcommand : (tree.scope config parent).own.subcommands[tree.place child]? =
      some (tree.command child) := by
    change ((tree.children parent).map tree.command)[_]? = _
    rw [List.getElem?_map, hwf.getElem?_children_place hchild]
    rfl
  rw [Scope.subcommands, List.getElem?_map, List.getElem?_zipIdx, hcommand]
  refine ⟨_, rfl, ?_⟩
  change (Spellings.new (((tree.children parent).map tree.command).map _) _ _).wordsOf _ = _
  rw [List.map_map, Nat.zero_add]
  rfl

/-- A test for the words that select a subcommand holds if they do. -/
theorem selects_iff {line : ParsedLine} {subcommand : Subcommand}
    (hsubcommand : (tree.scope config parent).subcommands[tree.place child]? = some subcommand) :
    tree.Selects config parent child line ↔
      (Test.positionalContains (tree.scope config parent).subcommandNumber
        subcommand.words).holds line = true := by
  simp only [Selects, Test.holds, hsubcommand]
  generalize line.positional? (tree.scope config parent).subcommandNumber = word?
  cases word? <;> simp

/-- The first test of a context is for the words that select the next command. -/
theorem contextTests_cons {scope : Scope} {outer : List Scope} {place : Nat}
    {subcommand : Subcommand} (hsubcommand : scope.subcommands[place]? = some subcommand) :
    Scope.contextTests place (scope :: outer) =
      Guard.test (.positionalContains scope.subcommandNumber subcommand.words) ::
        Scope.contextTests scope.own.place outer := by
  rw [Scope.contextTests, hsubcommand]
  rfl

/-- A command without a parent asks for nothing. -/
theorem context_holds_of_parent_eq_none (hparent : (tree.node id).parent = none)
    (config : Config) (line : ParsedLine) :
    (tree.scope config id).context.holds line = true := by
  rw [Scope.context, Guard.holds, Guard.eval_conj, List.all_reverse]
  change (Scope.contextTests (tree.place id)
    (Scope.enclosing config ((tree.ancestors id).map tree.level))).all _ = true
  rw [ancestors, hparent]
  rfl

/-- A subcommand asks for the word that selects it and for what its parent asks for. -/
theorem WellFormed.context_holds_iff_selects (hwf : tree.WellFormed)
    (hparent : (tree.node id).parent = some parent) (config : Config) (line : ParsedLine) :
    (tree.scope config id).context.holds line = true ↔
      tree.Selects config parent id line ∧
        (tree.scope config parent).context.holds line = true := by
  have htests : ∀ id, (tree.scope config id).context.holds line =
      (Scope.contextTests (tree.place id)
        (Scope.enclosing config ((tree.ancestors id).map tree.level))).all
          (Guard.eval (·.holds line)) := by
    intro id
    rw [Scope.context, Guard.holds, Guard.eval_conj, List.all_reverse]
    rfl
  obtain ⟨subcommand, hsubcommand, -⟩ :=
    hwf.exists_subcommand_words ((hwf.mem_children parent id).mpr hparent) config
  rw [htests id, htests parent, hwf.ancestors_eq hparent, List.map_cons, Scope.enclosing]
  change (Scope.contextTests (tree.place id) (tree.scope config parent :: _)).all _ = true ↔ _
  rw [contextTests_cons hsubcommand, List.all_cons, Bool.and_eq_true, selects_iff hsubcommand]
  rfl

/-- The context of a command asks for the words that select the commands on the way to it. -/
theorem WellFormed.context_holds_iff (hwf : tree.WellFormed) (config : Config)
    (line : ParsedLine) : (tree.scope config id).context.holds line = true ↔
      ∀ child ∈ tree.lineage id, ∀ parent, (tree.node child).parent = some parent →
        tree.Selects config parent child line := by
  induction id using Nat.strongRecOn with
  | _ id ih =>
    rcases hparent : (tree.node id).parent with _ | parent
    · rw [lineage, ancestors, hparent]
      refine iff_of_true (context_holds_of_parent_eq_none hparent config line) ?_
      intro child hchild parent hsome
      rw [List.mem_singleton.mp hchild, hparent] at hsome
      cases hsome
    · rw [hwf.context_holds_iff_selects hparent, ih parent (hwf.parent_lt id parent hparent),
        hwf.lineage_eq hparent, List.forall_mem_cons]
      refine and_congr_left fun _ => ⟨fun hselects other hother => ?_, fun hall => hall _ hparent⟩
      rw [hparent] at hother
      cases hother
      exact hselects

/-- A word selects one subcommand of a command only. -/
theorem WellFormed.eq_of_selects (hwf : tree.WellFormed) {first second : Nat}
    (hfirst : first ∈ tree.children parent) (hsecond : second ∈ tree.children parent)
    {line other : ParsedLine} (hline : line.positionals = other.positionals)
    (hselects : tree.Selects config parent first line)
    (hother : tree.Selects config parent second other) : first = second := by
  obtain ⟨_, hget, word, hword, hmem⟩ := hselects
  obtain ⟨_, hget', word', hword', hmem'⟩ := hother
  have hsame : word = word' := by
    rw [ParsedLine.positional?, hline] at hword
    exact Option.some.inj (hword.symm.trans hword')
  obtain ⟨subcommand, hsubcommand, hwords⟩ := hwf.exists_subcommand_words hfirst config
  obtain ⟨subcommand', hsubcommand', hwords'⟩ := hwf.exists_subcommand_words hsecond config
  rw [Option.mem_def, hsubcommand] at hget
  rw [Option.mem_def, hsubcommand'] at hget'
  cases hget
  cases hget'
  rw [hwords] at hmem
  rw [hwords', ← hsame] at hmem'
  have hplace := Spellings.eq_of_mem_wordsOf hmem hmem'
  have hfound := hwf.getElem?_children_place hfirst
  rw [hplace, hwf.getElem?_children_place hsecond] at hfound
  exact (Option.some.inj hfound).symm

/-! ## Where two ways part -/

/-- Below the last command on the ways to two commands, the ways lead through different
subcommands of it. -/
theorem WellFormed.exists_fork (hwf : tree.WellFormed) (ha : a < tree.size) (hb : b < tree.size)
    (hab : a ∉ tree.lineage b) (hba : b ∉ tree.lineage a) :
    ∃ parent, ∃ first ∈ tree.children parent, ∃ second ∈ tree.children parent,
      first ≠ second ∧ first ∈ tree.lineage a ∧ second ∈ tree.lineage b := by
  induction a using Nat.strongRecOn with
  | _ a ih =>
    have hpos : 0 < a := by
      rcases Nat.eq_zero_or_pos a with rfl | hpos
      · exact absurd (hwf.root_mem_lineage hb) hab
      · exact hpos
    obtain ⟨parent, hlt, hparent⟩ := hwf.exists_parent hpos ha
    have hline := hwf.lineage_eq hparent
    have hba' : b ∉ tree.lineage parent := by
      intro hmem
      apply hba
      rw [hline]
      exact List.mem_cons_of_mem a hmem
    by_cases hcommon : parent ∈ tree.lineage b
    · have hancestor : parent ∈ tree.ancestors b := by
        rcases List.mem_cons.mp hcommon with rfl | hancestor
        · exact absurd List.mem_cons_self hba'
        · exact hancestor
      obtain ⟨second, hsecond, hmem⟩ := hwf.exists_child_of_mem_ancestors hancestor
      refine ⟨parent, a, (hwf.mem_children parent a).mpr hparent, second, hsecond, ?_,
        List.mem_cons_self, hmem⟩
      rintro rfl
      exact hab hmem
    · obtain ⟨fork, first, hfirst, second, hsecond, hne, hmem, hmem'⟩ :=
        ih parent hlt (Nat.lt_trans hlt ha) hcommon hba'
      refine ⟨fork, first, hfirst, second, hsecond, hne, ?_, hmem'⟩
      rw [hline]
      exact List.mem_cons_of_mem a hmem

/-- No line is inside two commands of which none encloses the other, if the words make both
tables wait for a value or none. -/
theorem WellFormed.not_inside_both (hwf : tree.WellFormed) (ha : a < tree.size)
    (hb : b < tree.size) (hab : a ∉ tree.lineage b) (hba : b ∉ tree.lineage a)
    {words : List String} (hwaits : ∀ word ∈ words,
      (tree.scope config a).optionTable.waits word =
        (tree.scope config b).optionTable.waits word) :
    ¬(tree.Inside config a words ∧ tree.Inside config b words) := by
  rintro ⟨hinside, hinside'⟩
  have hagree : OptionTable.Agree (words.foldl (tree.scope config a).optionTable.step {})
      (words.foldl (tree.scope config b).optionTable.step {}) :=
    OptionTable.Agree.foldl ⟨rfl, rfl⟩ hwaits
  obtain ⟨parent, first, hfirst, second, hsecond, hne, hmem, hmem'⟩ :=
    hwf.exists_fork ha hb hab hba
  have hselects := (hwf.context_holds_iff config _).mp hinside first hmem parent
    ((hwf.mem_children parent first).mp hfirst)
  have hselects' := (hwf.context_holds_iff config _).mp hinside' second hmem' parent
    ((hwf.mem_children parent second).mp hsecond)
  exact hne (hwf.eq_of_selects hfirst hsecond hagree.positionals hselects hselects')

/-! ## Lines inside two commands -/

/-- The positions before a subcommand end with the slot that it is named in. -/
theorem WellFormed.slotsBefore_scope (hwf : tree.WellFormed)
    (hchild : child ∈ tree.children parent) (config : Config) :
    (tree.scope config child).slotsBefore = (tree.scope config parent).subcommandNumber := by
  have hslot := hwf.slot_isSome parent (List.ne_nil_of_mem hchild)
  have hparent := (hwf.mem_children parent child).mp hchild
  have hscope : (tree.scope config child).outer =
      tree.level parent :: (tree.scope config parent).outer := by
    change (tree.ancestors child).map tree.level = _
    rw [hwf.ancestors_eq hparent]
    rfl
  have hcount : (tree.level parent).command.slotCount =
      (tree.scope config parent).positionals.length + 1 := by
    change (tree.command parent).slotCount = _
    rw [Command.slotCount, if_pos hslot]
    rfl
  rw [Scope.slotsBefore, hscope, List.foldr_cons, hcount]
  change _ + (tree.scope config parent).slotsBefore = _
  rw [Scope.subcommandNumber]
  omega

/-- The name of a subcommand selects it. -/
theorem Accepted.selects_of_name (haccepted : tree.Accepted) (hchild : child ∈ tree.children parent)
    {line : ParsedLine} (hword : line.positional? (tree.scope config parent).subcommandNumber =
      some (tree.command child).name) : tree.Selects config parent child line := by
  obtain ⟨subcommand, hsubcommand, hname⟩ := haccepted.exists_subcommand hchild config
  exact ⟨subcommand, hsubcommand, _, hword, hname⟩

/-- For every command there are plain words that lead to it, one for each position before it:
every line whose positional words begin with them is inside the command. -/
theorem Accepted.exists_way (haccepted : tree.Accepted) (config : Config) (hid : id < tree.size) :
    ∃ way : List String, (∀ word ∈ way, OptionTable.isPlainWord word = true) ∧
      way.length = (tree.scope config id).slotsBefore ∧
      ∀ line : ParsedLine, way <+: line.positionals →
        (tree.scope config id).context.holds line = true := by
  have hwf := haccepted.built.wellFormed
  induction id using Nat.strongRecOn with
  | _ id ih =>
    rcases hparent : (tree.node id).parent with _ | parent
    · refine ⟨[], List.forall_mem_nil _, ?_, fun line _ =>
        context_holds_of_parent_eq_none hparent config line⟩
      change 0 = ((tree.ancestors id).map tree.level).foldr _ 0
      rw [ancestors, hparent]
      rfl
    · have hlt := hwf.parent_lt id parent hparent
      have hchild := (hwf.mem_children parent id).mpr hparent
      obtain ⟨way, hplain, hlength, hway⟩ := ih parent hlt (Nat.lt_trans hlt hid)
      have hname : OptionTable.isPlainWord (tree.command id).name = true :=
        (plain_of_isCommandName (isCommandName_of_mem (haccepted.commandFault?_eq_none hid)
          List.mem_cons_self)).1
      -- Empty words fill the positions of the parent, and the name stands in its slot.
      let scope := tree.scope config parent
      let fillers := List.replicate scope.positionals.length ""
      have hnumber : (way ++ fillers).length + 1 = scope.subcommandNumber := by
        rw [List.length_append, hlength, List.length_replicate]
        rfl
      refine ⟨way ++ fillers ++ [(tree.command id).name], ?_, ?_, fun line hline => ?_⟩
      · intro word hword
        simp only [List.mem_append, List.mem_singleton] at hword
        rcases hword with (hword | hword) | rfl
        · exact hplain word hword
        · rw [List.eq_of_mem_replicate hword]
          decide
        · exact hname
      · rw [hwf.slotsBefore_scope hchild, ← hnumber, List.length_append, List.length_singleton]
      · refine (hwf.context_holds_iff_selects hparent config line).mpr ⟨?_, hway line ?_⟩
        · apply haccepted.selects_of_name hchild
          obtain ⟨rest, hrest⟩ := hline
          have hnonzero : (scope.subcommandNumber == 0) = false := by
            simp [← hnumber]
          change line.positional? scope.subcommandNumber = _
          rw [ParsedLine.positional?, hnonzero, ← hnumber, ← hrest]
          simp
        · exact ((List.prefix_append _ _).trans (List.prefix_append _ _)).trans hline

/-- If a word makes only the table of one command wait for a value, there is a line inside
that command and any other one. -/
theorem Accepted.exists_inside_both (haccepted : tree.Accepted) (ha : a < tree.size)
    (hb : b < tree.size) {option : String}
    (hwaits : (tree.scope config a).optionTable.waits option = true)
    (hother : (tree.scope config b).optionTable.waits option = false) :
    ∃ words, tree.Inside config a words ∧ tree.Inside config b words := by
  obtain ⟨way, hplain, -, hway⟩ := haccepted.exists_way config ha
  obtain ⟨way', hplain', -, hway'⟩ := haccepted.exists_way config hb
  obtain ⟨hoption, hend, -⟩ := OptionTable.of_waits hwaits
  -- The words that lead to the second command are values of the option for the first one.
  let values := way'.flatMap fun value => [option, value]
  have hread (table : OptionTable) : (table.parseLine (values ++ way)).positionals =
      (if table.waits option then [] else way') ++ way := by
    have hstart : ({} : LineReader).expecting = .anything := rfl
    obtain ⟨hexpecting, hfound⟩ := table.foldl_values hstart hoption hend hplain'
    have hall := (table.foldl_plain hexpecting hplain).2
    rw [hfound, ← List.foldl_append] at hall
    exact hall
  refine ⟨values ++ way, hway _ ?_, hway' _ ?_⟩
  · rw [hread, hwaits]
    exact List.prefix_rfl
  · rw [hread, hother]
    exact List.prefix_append _ _

/-- Of two commands of which none encloses the other, a line is inside one at most as long as
the words make both tables wait for a value or none. No line is inside both exactly if all
words make both tables wait or none. -/
theorem not_inside_both_iff (haccepted : tree.Accepted) (ha : a < tree.size)
    (hb : b < tree.size) (hab : a ∉ tree.lineage b) (hba : b ∉ tree.lineage a)
    (config : Config) :
    let first := (tree.scope config a).optionTable
    let second := (tree.scope config b).optionTable
    (∀ words, (∀ word ∈ words, first.waits word = second.waits word) →
      ¬(tree.Inside config a words ∧ tree.Inside config b words)) ∧
    ((∀ words, ¬(tree.Inside config a words ∧ tree.Inside config b words)) ↔
      ∀ word, first.waits word = second.waits word) := by
  intro first second
  have hwf := haccepted.built.wellFormed
  have hapart : ∀ words, (∀ word ∈ words, first.waits word = second.waits word) →
      ¬(tree.Inside config a words ∧ tree.Inside config b words) :=
    fun words => hwf.not_inside_both ha hb hab hba
  refine ⟨hapart, fun hnone word => ?_, fun hsame words => hapart words fun word _ => hsame word⟩
  by_contra hdiffer
  cases hfirst : first.waits word with
  | true =>
    have hsecond : second.waits word = false := by simpa [hfirst] using Ne.symm hdiffer
    obtain ⟨words, hboth⟩ := haccepted.exists_inside_both ha hb hfirst hsecond
    exact hnone words hboth
  | false =>
    have hsecond : second.waits word = true := by simpa [hfirst] using Ne.symm hdiffer
    obtain ⟨words, hinside, hinside'⟩ := haccepted.exists_inside_both hb ha hsecond hfirst
    exact hnone words ⟨hinside', hinside⟩

/-- The document of a program with subcommands only. -/
def plainDocument : CommandDocument where
  prog := "prog"

/-- The document of a subcommand with a flag. -/
def addDocument : CommandDocument where
  prog := "prog add"
  options := [{ optionStrings := ["-o"], takesArgs := .absent }]

/-- The document of a subcommand with an option with a value under the same string. -/
def deleteDocument : CommandDocument where
  prog := "prog del"
  options := [{ optionStrings := ["-o"] }]

/-- The tree that is read from the three documents. -/
def adding : CommandTree :=
  ⟨#[{ command := { name := "prog", slot := some {} }, children := [1, 2] },
    { command := { name := "add", options := [{ outputOption with arity := .absent }] },
      parent := some 0 },
    { command := { name := "del", options := [outputOption] }, parent := some 0 }]⟩

/-- The tree is read from the three documents. -/
theorem ofDocuments_deleteDocument :
    ofDocuments [plainDocument, addDocument, deleteDocument] = .ok adding := by
  have hsorted : [plainDocument, addDocument, deleteDocument].mergeSort
      (fun a b => a.path.length ≤ b.path.length) =
        [plainDocument, addDocument, deleteDocument] :=
    List.mergeSort_of_pairwise (by decide +kernel)
  rw [ofDocuments, hsorted]
  simp only [CommandDocument.applyTo, CommandDocument.addTo, CommandDocument.orderedPositionals,
    List.foldlM_cons, List.foldlM_nil, plainDocument, addDocument, deleteDocument,
    List.mergeSort_nil]
  rfl

/-- The tree is accepted. -/
theorem accepted_adding : adding.Accepted :=
  ⟨(described_of_ofDocuments ofDocuments_deleteDocument).built, rfl⟩

/-- The premises hold of the two subcommands. -/
theorem not_inside_both_iff_adding :
    let first := (adding.scope {} 1).optionTable
    let second := (adding.scope {} 2).optionTable
    adding.Accepted ∧ 1 < adding.size ∧ 2 < adding.size ∧ 1 ∉ adding.lineage 2 ∧
      2 ∉ adding.lineage 1 ∧
      (∀ words, (∀ word ∈ words, first.waits word = second.waits word) →
        ¬(adding.Inside {} 1 words ∧ adding.Inside {} 2 words)) ∧
      ((∀ words, ¬(adding.Inside {} 1 words ∧ adding.Inside {} 2 words)) ↔
        ∀ word, first.waits word = second.waits word) := by
  have hfirst : 1 < adding.size := by decide
  have hsecond : 2 < adding.size := by decide
  have hfirst_notMem : 1 ∉ adding.lineage 2 := by decide +kernel
  have hsecond_notMem : 2 ∉ adding.lineage 1 := by decide +kernel
  exact ⟨accepted_adding, hfirst, hsecond, hfirst_notMem, hsecond_notMem,
    not_inside_both_iff accepted_adding hfirst hsecond hfirst_notMem hsecond_notMem {}⟩

/-- The word after the option is positional for the subcommand with the flag and a value for
the other one, which finds its name in the next word. -/
theorem inside_both_of_flag : ∃ tree,
    ofDocuments [plainDocument, addDocument, deleteDocument] = .ok tree ∧ tree.Accepted ∧
      1 < tree.size ∧ 2 < tree.size ∧ 1 ∉ tree.lineage 2 ∧ 2 ∉ tree.lineage 1 ∧
        tree.Inside {} 1 ["-o", "add", "del"] ∧ tree.Inside {} 2 ["-o", "add", "del"] := by
  refine ⟨adding, ofDocuments_deleteDocument, accepted_adding, ?_, ?_, ?_, ?_, ?_, ?_⟩ <;>
    decide +kernel

end ShellCompletion.CommandTree
