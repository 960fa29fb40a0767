import ShellCompletion.Proofs.CommandTree.Growth
import ShellCompletion.Proofs.Document.Described

/-!
# What a document makes of a command

Reading a document takes a new command through several stages. All of them depend on the
document alone, except that the numbers of positional arguments have to go on where those of
the enclosing commands end.
-/

namespace ShellCompletion

open CommandTree

namespace CommandDocument

variable {tree after : CommandTree} {id parent : Nat} {document : CommandDocument}
  {command other : Command}

/-- The path of the enclosing command. -/
def parentPath (document : CommandDocument) : List String :=
  document.path.dropLast

/-- The name of the command. -/
def name (document : CommandDocument) : String :=
  document.path.getLastD ""

/-- The words that the command answers to. -/
def names (document : CommandDocument) : List String :=
  document.name :: document.aliases

/-- A path goes on from that of the enclosing command with the name. -/
theorem path_eq (hpath : document.path ≠ []) :
    document.path = document.parentPath ++ [document.name] := by
  rw [parentPath, name, List.getLastD_eq_getLast?, List.getLast?_eq_some_getLast hpath,
    Option.getD_some, List.dropLast_concat_getLast]

/-- A document of a subcommand has a path. -/
theorem path_ne_nil (hparent : document.parentPath ≠ []) : document.path ≠ [] := by
  intro hpath
  rw [parentPath, hpath] at hparent
  exact hparent rfl

/-- The command that the document describes if its arguments are given. -/
def commandWith (document : CommandDocument) (options : List CommandOption)
    (positionals : List Positional) : Command where
  name := document.name
  aliases := document.aliases
  help := document.help
  abbreviateCommands := document.abbreviateCommands
  abbreviateOptions := document.abbreviateOptions
  inheritOptions := document.inheritOptions
  options := options
  positionals := positionals
  slot := document.subcommands.map fun slot => ⟨slot.metavar, slot.help⟩

/-- The command that the document describes, as long as it has no subcommands. -/
def command? (document : CommandDocument) : Except Error Command := do
  let options ← document.options.mapM (·.toOption)
  let positionals ← document.orderedPositionals.mapM (·.toPositional)
  pure (document.commandWith options positionals)

/-- A document describes a command if its arguments can be read. -/
theorem command?_eq_ok : document.command? = .ok command ↔
    ∃ options, document.options.mapM (·.toOption) = .ok options ∧
      ∃ positionals, document.orderedPositionals.mapM (·.toPositional) = .ok positionals ∧
        document.commandWith options positionals = command := by
  simp only [command?, bind_eq_ok, pure, Except.pure, Except.ok.injEq]

/-- The document describes a command whose options can be told apart. -/
def Makes (document : CommandDocument) (command : Command) : Prop :=
  document.command? = .ok command ∧
    command.options.Pairwise fun a b => a.strings.Disjoint b.strings

/-- A document makes one command at most. -/
theorem Makes.unique (hmakes : document.Makes command) (hother : document.Makes other) :
    command = other :=
  Except.ok.inj (hmakes.1.symm.trans hother.1)

/-- The command that a document makes has the name and the aliases of the document and as many
positional arguments. -/
theorem Makes.names (hmakes : document.Makes command) :
    command.name = document.name ∧ command.aliases = document.aliases ∧
      command.positionals.length = document.positionals.length := by
  obtain ⟨options, -, positionals, hpositionals, rfl⟩ := command?_eq_ok.mp hmakes.1
  have hlength : document.orderedPositionals.length = document.positionals.length :=
    List.length_mergeSort _
  exact ⟨rfl, rfl, (mapM_eq_ok.mp hpositionals).length_eq.symm.trans hlength⟩

/-- The positional arguments have the numbers after a given one, without gaps. -/
def IsNumberedFrom (document : CommandDocument) (count : Nat) : Prop :=
  document.orderedPositionals.map (·.number) =
    List.range' (count + 1) document.positionals.length

/-- Options are added if they can be read and are told apart from those that are there and from
one another. -/
theorem foldlM_addOption_eq_ok {options : List OptionDocument} (hid : id < tree.size)
    (hdisjoint : (tree.command id).options.Pairwise fun a b => a.strings.Disjoint b.strings) :
    options.foldlM (addOption id) tree = .ok after ↔
      ∃ built, options.mapM (·.toOption) = .ok built ∧
        (((tree.command id).options ++ built).Pairwise fun a b => a.strings.Disjoint b.strings) ∧
        after = tree.modify id fun command =>
          { command with options := command.options ++ built } := by
  change options.foldlM (fun tree option => option.toOption >>= tree.addOption id) tree = _ ↔ _
  rw [foldlM_read_eq_ok]
  simp only [CommandTree.foldlM_addOption_eq_ok hid hdisjoint]

/-- Positional arguments are added if they can be read and have the numbers of their places. -/
theorem foldlM_addPositional_eq_ok {positionals : List PositionalDocument} (hid : id < tree.size) :
    positionals.foldlM (document.addPositional id) tree = .ok after ↔
      ∃ built, positionals.mapM (·.toPositional) = .ok built ∧
        positionals.map (·.number) =
          List.range' (tree.positionalNumber id (tree.command id).positionals.length)
            positionals.length ∧
        after = tree.modify id fun command =>
          { command with positionals := command.positionals ++ built } := by
  induction positionals generalizing tree with
  | nil =>
    have hsame : (tree.modify id fun command =>
        { command with positionals := command.positionals ++ [] }) = tree :=
      modify_eq_self (by simp)
    constructor
    · intro hrun
      cases hrun
      exact ⟨[], rfl, rfl, hsame.symm⟩
    · rintro ⟨built, hbuilt, -, rfl⟩
      cases hbuilt
      exact congrArg Except.ok hsame.symm
  | cons positional rest ih =>
    let number := tree.positionalNumber id (tree.command id).positionals.length
    -- After the first argument, the next number is expected.
    have hnext {first : Positional} :
        rest.foldlM (document.addPositional id) (tree.addPositional id first) = .ok after ↔
          ∃ built, rest.mapM (·.toPositional) = .ok built ∧
            rest.map (·.number) = List.range' (number + 1) rest.length ∧
            after = tree.modify id fun command =>
              { command with positionals := command.positionals ++ first :: built } := by
      have hnumber : (tree.addPositional id first).positionalNumber id
          ((tree.addPositional id first).command id).positionals.length = number + 1 := by
        rw [CommandTree.addPositional, positionalNumber_modify_self, command_modify_self hid,
          List.length_append, List.length_singleton]
        simp only [number, positionalNumber]
        omega
      have hsize : id < (tree.addPositional id first).size := by
        simpa [CommandTree.addPositional] using hid
      rw [ih hsize, hnumber]
      simp only [CommandTree.addPositional, modify_modify, List.append_assoc,
        List.singleton_append, Function.comp_def]
    rw [List.foldlM_cons, bind_eq_ok, List.map_cons, List.length_cons, List.range'_succ]
    constructor
    · rintro ⟨next, hadd, hrest⟩
      obtain ⟨hnumber, first, hfirst, rfl⟩ := addPositional_eq_ok.mp hadd
      obtain ⟨built, hbuilt, hnumbers, rfl⟩ := hnext.mp hrest
      refine ⟨first :: built, mapM_eq_ok.mpr (.cons hfirst (mapM_eq_ok.mp hbuilt)), ?_, rfl⟩
      rw [hnumber, hnumbers]
    · rintro ⟨built, hbuilt, hnumbers, rfl⟩
      obtain ⟨first, others, hfirst, hothers, rfl⟩ :=
        List.forall₂_cons_left_iff.mp (mapM_eq_ok.mp hbuilt)
      obtain ⟨hnumber, hnumbers⟩ := List.cons.inj hnumbers
      exact ⟨_, addPositional_eq_ok.mpr ⟨hnumber, first, hfirst, rfl⟩,
        hnext.mpr ⟨others, mapM_eq_ok.mpr hothers, hnumbers, rfl⟩⟩

/-- The tree with what the document describes, apart from the slot, in the place of a command. -/
def withArguments (document : CommandDocument) (tree : CommandTree) (id : Nat)
    (options : List CommandOption) (positionals : List Positional) : CommandTree :=
  tree.modify id fun _ => { document.commandWith options positionals with slot := none }

/-- The options of a document are added to a new command. -/
theorem foldlM_options_eq_ok (hid : id < tree.size) :
    document.options.foldlM (addOption id) (document.withArguments tree id [] []) = .ok after ↔
      ∃ options, document.options.mapM (·.toOption) = .ok options ∧
        (options.Pairwise fun a b => a.strings.Disjoint b.strings) ∧
        after = document.withArguments tree id options [] := by
  have hcommand : (document.withArguments tree id [] []).command id =
      { document.commandWith [] [] with slot := none } := command_modify_self hid
  have hnone : ((document.withArguments tree id [] []).command id).options = [] := by
    rw [hcommand]
    rfl
  rw [foldlM_addOption_eq_ok (by simpa [withArguments] using hid) (by rw [hnone]; exact .nil),
    hnone]
  simp only [withArguments, modify_modify, List.nil_append]
  rfl

/-- The positional arguments of a document are added to a new command if they have the numbers
after those of the enclosing commands. -/
theorem foldlM_positionals_eq_ok (hid : id < tree.size) {options : List CommandOption} :
    document.orderedPositionals.foldlM (document.addPositional id)
        (document.withArguments tree id options []) = .ok after ↔
      ∃ positionals, document.orderedPositionals.mapM (·.toPositional) = .ok positionals ∧
        document.IsNumberedFrom (tree.slotsBefore id) ∧
        after = document.withArguments tree id options positionals := by
  have hcommand : (document.withArguments tree id options []).command id =
      { document.commandWith options [] with slot := none } := command_modify_self hid
  have hnumber : (document.withArguments tree id options []).positionalNumber id
      ((document.withArguments tree id options []).command id).positionals.length =
        tree.slotsBefore id + 1 := by
    rw [hcommand, withArguments, positionalNumber_modify_self, positionalNumber]
    rfl
  have hlength : document.orderedPositionals.length = document.positionals.length :=
    List.length_mergeSort _
  rw [foldlM_addPositional_eq_ok (by simpa [withArguments] using hid), hnumber, hlength]
  simp only [withArguments, modify_modify, IsNumberedFrom]
  rfl

/-- The slot of a document is added to a new command. -/
theorem addSlot_eq_ok (hid : id < tree.size) {options : List CommandOption}
    {positionals : List Positional} :
    (match document.subcommands with
      | none => pure (document.withArguments tree id options positionals)
      | some slot => (document.withArguments tree id options positionals).addSlot id
          ⟨slot.metavar, slot.help⟩) = (.ok after : Except Error CommandTree) ↔
      after = tree.modify id fun _ => document.commandWith options positionals := by
  cases hslot : document.subcommands with
  | none =>
    have hsame : document.withArguments tree id options positionals =
        tree.modify id fun _ => document.commandWith options positionals := by
      simp [withArguments, commandWith, hslot]
    rw [hsame]
    exact (Except.ok.injEq _ _).to_iff.trans eq_comm
  | some slot =>
    have hcommand : (document.withArguments tree id options positionals).command id =
        { document.commandWith options positionals with slot := none } :=
      command_modify_self hid
    have hsame : (document.withArguments tree id options positionals).modify id (fun command =>
          { command with slot := some ⟨slot.metavar, slot.help⟩ }) =
        tree.modify id fun _ => document.commandWith options positionals := by
      rw [withArguments, modify_modify]
      simp [Function.comp_def, commandWith, hslot]
    simp only [CommandTree.addSlot_eq_ok, hcommand, hsame, true_and]

/-- Reading a document for a new command makes it the command that the document describes, if the
options are told apart and the positional arguments have the numbers of their places. -/
theorem applyTo_eq_ok (hid : id < tree.size)
    (hnew : ∃ help, tree.command id = { name := document.name, help }) :
    document.applyTo id tree = .ok after ↔
      ∃ command, document.Makes command ∧ document.IsNumberedFrom (tree.slotsBefore id) ∧
        after = tree.modify id fun _ => command := by
  obtain ⟨help, hnew⟩ := hnew
  have hstart : (tree.modify id fun command => {
      command with
      aliases := document.aliases
      help := document.help
      abbreviateCommands := document.abbreviateCommands
      abbreviateOptions := document.abbreviateOptions
      inheritOptions := document.inheritOptions }) = document.withArguments tree id [] [] := by
    refine modify_congr ?_
    rw [hnew]
    rfl
  rw [applyTo, hstart, bind_eq_ok]
  constructor
  · rintro ⟨withOptions, hoptions, hrest⟩
    obtain ⟨options, hread, hdisjoint, rfl⟩ := (foldlM_options_eq_ok hid).mp hoptions
    obtain ⟨withPositionals, hpositionals, hslot⟩ := bind_eq_ok.mp hrest
    obtain ⟨positionals, hread', hnumbers, rfl⟩ := (foldlM_positionals_eq_ok hid).mp hpositionals
    exact ⟨_, ⟨command?_eq_ok.mpr ⟨options, hread, positionals, hread', rfl⟩, hdisjoint⟩, hnumbers,
      (addSlot_eq_ok hid).mp hslot⟩
  · rintro ⟨command, ⟨hcommand, hdisjoint⟩, hnumbers, rfl⟩
    obtain ⟨options, hread, positionals, hread', rfl⟩ := command?_eq_ok.mp hcommand
    refine ⟨_, (foldlM_options_eq_ok hid).mpr ⟨options, hread, hdisjoint, rfl⟩, ?_⟩
    exact bind_eq_ok.mpr ⟨_, (foldlM_positionals_eq_ok hid).mpr
      ⟨positionals, hread', hnumbers, rfl⟩, (addSlot_eq_ok hid).mpr rfl⟩

/-- Reading starts if the first document makes a command and numbers its arguments from one. -/
theorem applyTo_new_eq_ok {name : String} (hpath : document.path = [name]) :
    document.applyTo 0 (CommandTree.new name) = .ok after ↔
      ∃ command, document.Makes command ∧ document.IsNumberedFrom 0 ∧
        after = (CommandTree.new name).modify 0 fun _ => command := by
  have hsize : 0 < (CommandTree.new name).size := Nat.one_pos
  have hname : document.name = name := by
    rw [CommandDocument.name, hpath]
    rfl
  have hnew : ∃ help, (CommandTree.new name).command 0 = { name := document.name, help } := by
    rw [hname]
    exact ⟨"", rfl⟩
  rw [applyTo_eq_ok hsize hnew, (WellFormed.new name).slotsBefore_root]

/-- A document adds the command that it describes below the command that its parent path leads
to, if no subcommand there answers to its name. -/
theorem addTo_eq_ok_attach (hwf : tree.WellFormed) : addTo tree document = .ok after ↔
    document.parentPath ≠ [] ∧ ∃ parent, tree.findByPath? document.parentPath = some parent ∧
      tree.findSubcommand? parent document.name = none ∧
      ∃ command, document.Makes command ∧
        document.IsNumberedFrom (tree.subcommandNumber parent) ∧
        after = tree.attach parent command := by
  have happly {parent : Nat} (hparent : tree.findByPath? document.parentPath = some parent) :
      document.applyTo tree.size
          (tree.attach parent { name := document.name, help := document.help }) = .ok after ↔
        ∃ command, document.Makes command ∧
          document.IsNumberedFrom (tree.subcommandNumber parent) ∧
          after = tree.attach parent command := by
    have hlt := hwf.lt_size_of_findByPath? hparent
    have hnew : ∃ help, (tree.attach parent
        { name := document.name, help := document.help }).command tree.size =
          { name := document.name, help } :=
      ⟨document.help, by rw [command_attach hlt, if_pos rfl]⟩
    rw [applyTo_eq_ok (by simp) hnew, hwf.slotsBefore_attach hlt]
    simp only [modify_attach_size hlt]
  rw [addTo_eq_ok]
  constructor
  · rintro ⟨enclosing, name, parent, hpath, hempty, hparent, hfind, hrun⟩
    have henclosing : document.parentPath = enclosing := by
      rw [parentPath, hpath, List.dropLast_concat]
    have hname : document.name = name := by
      rw [CommandDocument.name, hpath, List.getLastD_concat]
    rw [← henclosing] at hempty hparent
    rw [← hname] at hfind hrun
    exact ⟨hempty, parent, hparent, hfind, (happly hparent).mp hrun⟩
  · rintro ⟨hempty, parent, hparent, hfind, hrun⟩
    exact ⟨_, _, parent, path_eq (path_ne_nil hempty), hempty, hparent, hfind,
      (happly hparent).mpr hrun⟩

end CommandDocument
end ShellCompletion
