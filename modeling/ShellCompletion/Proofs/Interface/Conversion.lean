import ShellCompletion.Interface.Tree
import ShellCompletion.Proofs.CommandTree.Paths
import ShellCompletion.Proofs.CommandTree.Growth
import ShellCompletion.Proofs.Document.Arguments
import ShellCompletion.Proofs.Follows

/-!
# The commands of an interface in its tree

The tree of an interface grows command by command. A command gets all its options before its
first subcommand, and once a subcommand is done with everything below it, only other commands
are added. So in the end a path of names of commands that are shown leads to a command with
the options that the arguments of the interface there become.
-/

namespace ShellCompletion

/-! ## Options of arguments -/

/-- Whatever is known of its values, an argument is drafted with the words that stand for it. -/
theorem Argument.gives_optionDraft (argument : Argument) (command : String) :
    Gives (argument.optionDraft command) fun draft => draft.strings = argument.optionStrings := by
  unfold optionDraft
  extract_lets range withArity
  have harity : ∀ arity, Gives (withArity arity)
      fun draft => draft.strings = argument.optionStrings := by
    rintro ⟨arity, repeatable⟩
    dsimp -zeta only [withArity]
    extract_lets flag valued withDraft
    have hdraft : ∀ warned, Gives (withDraft warned)
        fun draft => draft.strings = argument.optionStrings := by
      intro warned
      dsimp only [withDraft]
      split
      · exact .pure rfl
      · split
        · exact .pure rfl
        · exact .bind fun _ => .pure rfl
    -- There may be a warning about the number of values before.
    split
    · exact .bind hdraft
    · exact hdraft ()
  split <;> exact .bind harity

namespace CommandFace

variable {face : CommandFace} {argument : Argument}

/-- The arguments that are shown as options, in order. -/
def optionArguments (face : CommandFace) : List Argument :=
  face.shown.filter (!·.isPositional)

/-- An argument becomes an option of the command. -/
def Becomes (face : CommandFace) (argument : Argument) (option : CommandOption) : Prop :=
  ∃ before after, face.option argument before = .ok option after

/-- An option has the words of its argument and the first group of that which allows one argument
at a time. -/
theorem Becomes.strings_and_group {option : CommandOption} (hbecomes : face.Becomes argument option) :
    option.strings = argument.optionStrings ∧ option.group = face.exclusiveGroup? argument := by
  obtain ⟨before, after, hrun⟩ := hbecomes
  obtain ⟨draft, between, hdraft, hbuild⟩ := bind_apply_eq_ok.mp hrun
  obtain ⟨-, -, hstrings, -, -, -, -, hgroup, -⟩ :=
    OptionDraft.build_eq_ok.mp (Logged.ofExcept_apply_eq_ok.mp hbuild).1
  exact ⟨hstrings.trans (argument.gives_optionDraft face.name before draft between hdraft), hgroup⟩

/-- A command has the options that the arguments become, in their order. -/
def Declares (face : CommandFace) (command : Command) : Prop :=
  List.Forall₂ face.Becomes face.optionArguments command.options

end CommandFace

/-! ## A command on its own -/

namespace CommandTree

variable {tree after : CommandTree} {id : Nat} {face : CommandFace} {before rest : List Warning}

/-- A command without options gets those that the arguments become. -/
theorem addOptionsOf_eq_ok (hid : id < tree.size) (hnew : (tree.command id).options = [])
    (hrun : tree.addOptionsOf id face before = .ok after rest) :
    ∃ options, List.Forall₂ face.Becomes face.optionArguments options ∧
      (options.Pairwise fun a b => a.strings.Disjoint b.strings) ∧
      after = tree.modify id fun command => { command with options := options } := by
  let added (arguments : List Argument) (after : CommandTree) : Prop :=
    ∃ options, List.Forall₂ face.Becomes arguments options ∧
      (options.Pairwise fun a b => a.strings.Disjoint b.strings) ∧
      after = tree.modify id fun command => { command with options := options }
  have hstart : added [] tree := ⟨[], .nil, .nil, (modify_eq_self (by rw [← hnew])).symm⟩
  refine foldlM_apply_invariant added ?_ hstart hrun
  rintro earlier argument value between next after ⟨options, hbecome, hdisjoint, rfl⟩ hargument
  obtain ⟨option, warned, hoption, hadd⟩ := bind_apply_eq_ok.mp hargument
  obtain ⟨hapart, rfl⟩ := addOption_eq_ok.mp (Logged.ofExcept_apply_eq_ok.mp hadd).1
  rw [command_modify_self hid] at hapart
  refine ⟨options ++ [option], ?_, ?_, ?_⟩
  · exact List.rel_append hbecome (.cons ⟨between, warned, hoption⟩ .nil)
  · exact List.pairwise_append.mpr ⟨hdisjoint, List.pairwise_singleton _ _,
      fun other hother last hlast => List.mem_singleton.mp hlast ▸ hapart other hother⟩
  · rw [modify_modify]
    rfl

/-- Adding positional arguments changes nothing else. -/
theorem addPositionalsOf_eq_ok (hrun : tree.addPositionalsOf id face before = .ok after rest) :
    ∃ positionals, after = tree.modify id fun command =>
      { command with positionals := command.positionals ++ positionals } := by
  let added (_ : List Argument) (after : CommandTree) : Prop :=
    ∃ positionals, after = tree.modify id fun command =>
      { command with positionals := command.positionals ++ positionals }
  have hstart : added [] tree := ⟨[], (modify_eq_self (by simp)).symm⟩
  refine foldlM_apply_invariant added ?_ hstart hrun
  rintro earlier argument value between next after ⟨positionals, rfl⟩ hargument
  obtain ⟨positional, warned, -, hadd⟩ := bind_apply_eq_ok.mp hargument
  cases hadd
  refine ⟨positionals ++ [positional], ?_⟩
  rw [addPositional, modify_modify]
  simp [Function.comp_def]

/-- A command keeps its name and gets its options before subcommands are added to it. -/
theorem addInterface_command_eq_ok (hid : id < tree.size) (hnew : (tree.command id).options = [])
    {subcommands : List Interface}
    (hrun : tree.addInterface id (.command face subcommands) before = .ok after rest) :
    ∃ command, command.name = (tree.command id).name ∧ command.slot = (tree.command id).slot ∧
      (command.options.Pairwise fun a b => a.strings.Disjoint b.strings) ∧
      face.Declares command ∧ ∃ between,
        (tree.modify id fun _ => command).addSubcommandsOf id subcommands between =
          .ok after rest := by
  rw [addInterface] at hrun
  obtain ⟨withOptions, warned, hoptions, hrun⟩ := bind_apply_eq_ok.mp hrun
  obtain ⟨withPositionals, between, hpositionals, hrest⟩ := bind_apply_eq_ok.mp hrun
  obtain ⟨options, hdeclares, hdisjoint, rfl⟩ := addOptionsOf_eq_ok (by simpa using hid)
    (by simpa [command_modify_self hid] using hnew) hoptions
  obtain ⟨positionals, rfl⟩ := addPositionalsOf_eq_ok hpositionals
  rw [modify_modify, modify_modify] at hrest
  let command : Command := { tree.command id with
    help := shownText face.about
    aliases := if (tree.node id).parent.isNone then (tree.command id).aliases else face.aliases
    options := options
    positionals := (tree.command id).positionals ++ positionals }
  refine ⟨command, rfl, rfl, hdisjoint, hdeclares, between, ?_⟩
  have hsame (change : Command → Command) (hchange : change (tree.command id) = command) :
      tree.modify id change = tree.modify id fun _ => command := modify_congr hchange
  rwa [hsame _ rfl] at hrest

/-! ## Commands that are done -/

/-- A tree to which commands may have been added, and whose commands keep their options. -/
structure GrowsTo (tree after : CommandTree) : Prop extends tree.Extends after where
  /-- Commands keep their options. -/
  options_eq : ∀ id < tree.size, (after.command id).options = (tree.command id).options

namespace GrowsTo

variable {between : CommandTree}

/-- Adding nothing keeps all options. -/
theorem refl (tree : CommandTree) : tree.GrowsTo tree where
  toExtends := .refl tree
  options_eq _ _ := rfl

/-- What grows twice in a row grows. -/
theorem trans (hfirst : tree.GrowsTo between) (hsecond : between.GrowsTo after) :
    tree.GrowsTo after where
  toExtends := hfirst.toExtends.trans hsecond.toExtends
  options_eq id hid := (hsecond.options_eq id (Nat.lt_of_lt_of_le hid hfirst.size_le)).trans
    (hfirst.options_eq id hid)

end GrowsTo

/-- Attaching a subcommand leaves the options of the others. -/
theorem growsTo_attach {parent : Nat} (hparent : parent < tree.size) (command : Command) :
    tree.GrowsTo (tree.attach parent command) where
  toExtends := extends_attach hparent command
  options_eq other hother := by
    obtain ⟨slot, hcommand, -⟩ := exists_command_attach hparent hother
    rw [hcommand]

end CommandTree

/-! ## All commands -/

/-- A path of names leads from a command to one below it, past no command that is kept from
view. -/
inductive Interface.Reaches : Interface → List String → CommandFace → Prop
  /-- Without a name, there is only the command itself. -/
  | self (face : CommandFace) (subcommands : List Interface) :
      Reaches (.command face subcommands) [] face
  /-- A name leads to a subcommand, and the others lead on from there. -/
  | under {face inner : CommandFace} {subcommand : Interface} {subcommands : List Interface}
      {path : List String} (hmem : subcommand ∈ subcommands)
      (hshown : subcommand.face.hidden = false) (hreaches : Reaches subcommand path inner) :
      Reaches (.command face subcommands) (subcommand.face.name :: path) inner

namespace CommandTree

variable {tree after : CommandTree} {id : Nat} {face : CommandFace} {interface : Interface}

/-- Names that lead to a command of the interface lead to a command of the tree that has the
options of that one. -/
def Shows (tree : CommandTree) (id : Nat) (interface : Interface) : Prop :=
  ∀ path face, interface.Reaches path face → ∃ found,
    path.foldlM tree.findSubcommand? id = some found ∧ face.Declares (tree.command found)

/-- A tree goes on showing what it shows. -/
theorem GrowsTo.shows (hgrows : tree.GrowsTo after) (hwf : tree.WellFormed) (hid : id < tree.size)
    (hshows : tree.Shows id interface) : after.Shows id interface := by
  intro path face hreaches
  obtain ⟨found, hpath, hdeclares⟩ := hshows path face hreaches
  have hfound := hwf.lt_size_of_foldlM_findSubcommand? hid hpath
  refine ⟨found, hgrows.foldlM_findSubcommand?_eq hwf hid hpath, ?_⟩
  rwa [CommandFace.Declares, hgrows.options_eq found hfound]

/-- A command is shown with everything below it if it has its options and all subcommands that
are not kept from view are shown. -/
theorem shows_command {subcommands : List Interface} (hdeclares : face.Declares (tree.command id))
    (hbelow : ∀ subcommand ∈ subcommands, subcommand.face.hidden = false → ∃ child,
      tree.findSubcommand? id subcommand.face.name = some child ∧ tree.Shows child subcommand) :
    tree.Shows id (.command face subcommands) := by
  intro path inner hreaches
  cases hreaches with
  | self => exact ⟨id, rfl, hdeclares⟩
  | under hmem hshown hreaches =>
    obtain ⟨child, hchild, hshows⟩ := hbelow _ hmem hshown
    obtain ⟨found, hpath, hinner⟩ := hshows _ inner hreaches
    refine ⟨found, ?_, hinner⟩
    rw [List.foldlM_cons, hchild]
    exact hpath

/-- What an interface makes of a tree in which a new command stands for it: the command is
declared under its name, the tree grows from then on, and in the end it shows the interface. -/
structure Converts (tree : CommandTree) (id : Nat) (interface : Interface) (after : CommandTree) :
    Prop where
  /-- The tree stays well-formed. -/
  wellFormed : after.WellFormed
  /-- The declaration of the command comes first. -/
  grown : ∃ command, command.name = (tree.command id).name ∧
    (tree.modify id fun _ => command).WellFormed ∧
    (tree.modify id fun _ => command).GrowsTo after
  /-- The interface is shown. -/
  shows : after.Shows id interface

/-- Converting a new subcommand lets the tree grow, and its name leads to it. -/
theorem findSubcommand?_of_converts {new : Command} (hwf : tree.WellFormed) (hid : id < tree.size)
    (hnone : tree.findSubcommand? id new.name = none)
    (hconverts : (tree.attach id new).Converts tree.size interface after) :
    tree.GrowsTo after ∧ tree.size < after.size ∧
      after.findSubcommand? id new.name = some tree.size := by
  obtain ⟨command, hname, hdeclared, hgrown⟩ := hconverts.grown
  rw [modify_attach_size hid] at hdeclared hgrown
  rw [command_attach hid, if_pos rfl] at hname
  have hattached : id < (tree.attach id command).size := by
    rw [size_attach]
    exact Nat.lt_succ_of_lt hid
  have hfind : (tree.attach id command).findSubcommand? id new.name = some tree.size := by
    refine (extends_attach hid command).findSubcommand?_new hwf hnone ?_ ?_
    · rw [children_attach hid, if_pos rfl]
    · rw [command_attach hid, if_pos rfl, Command.names, hname]
      exact List.mem_cons_self
  refine ⟨(growsTo_attach hid command).trans hgrown, ?_, ?_⟩
  · exact Nat.lt_of_lt_of_le (by simp) hgrown.size_le
  · exact hgrown.findSubcommand?_eq hdeclared hattached hfind

mutual

/-- Adding an interface to a new command converts it. -/
theorem converts_of_addInterface {tree after : CommandTree} {id : Nat}
    {before rest : List Warning} {interface : Interface} (hwf : tree.WellFormed)
    (hid : id < tree.size) (hnew : (tree.command id).options = [])
    (hrun : tree.addInterface id interface before = .ok after rest) :
    tree.Converts id interface after := by
  cases interface with
  | command face subcommands =>
    obtain ⟨command, hname, hslot, hdisjoint, hdeclares, between, hrest⟩ :=
      addInterface_command_eq_ok hid hnew hrun
    have hwf' : (tree.modify id fun _ => command).WellFormed :=
      hwf.modify (by rw [hslot]; exact fun h => h) hdisjoint
    have hid' : id < (tree.modify id fun _ => command).size := by rwa [size_modify]
    obtain ⟨hafter, hgrows, hbelow⟩ := shows_of_addSubcommandsOf hwf' hid' hrest
    refine ⟨hafter, ⟨command, hname, hwf', hgrows⟩, shows_command ?_ hbelow⟩
    rw [CommandFace.Declares, hgrows.options_eq id hid', command_modify_self hid]
    exact hdeclares

/-- Adding subcommands to a command lets the tree grow, and shows those that are not kept from
view under their names. -/
theorem shows_of_addSubcommandsOf {tree after : CommandTree} {id : Nat}
    {before rest : List Warning} {subcommands : List Interface} (hwf : tree.WellFormed)
    (hid : id < tree.size)
    (hrun : tree.addSubcommandsOf id subcommands before = .ok after rest) :
    after.WellFormed ∧ tree.GrowsTo after ∧
      ∀ subcommand ∈ subcommands, subcommand.face.hidden = false → ∃ child,
        after.findSubcommand? id subcommand.face.name = some child ∧
          after.Shows child subcommand := by
  cases subcommands with
  | nil =>
    cases hrun
    exact ⟨hwf, .refl tree, nofun⟩
  | cons subcommand subcommands =>
    rw [addSubcommandsOf] at hrun
    split at hrun
    · rename_i hhidden
      obtain ⟨hafter, hgrows, hbelow⟩ := shows_of_addSubcommandsOf hwf hid hrun
      refine ⟨hafter, hgrows, List.forall_mem_cons.mpr ⟨fun hshown => ?_, hbelow⟩⟩
      rw [hhidden] at hshown
      cases hshown
    · obtain ⟨⟨attached, child⟩, warned, hadd, hrun⟩ := bind_apply_eq_ok.mp hrun
      obtain ⟨converted, between, hconvert, hrest⟩ := bind_apply_eq_ok.mp hrun
      obtain ⟨hnone, rfl, rfl⟩ := addSubcommand_eq_ok.mp (Logged.ofExcept_apply_eq_ok.mp hadd).1
      have hconverts := converts_of_addInterface (hwf.attach hid rfl) (by simp)
        (by rw [command_attach hid, if_pos rfl]) hconvert
      obtain ⟨hgrown, hchild, hfind⟩ := findSubcommand?_of_converts hwf hid hnone hconverts
      have hid' : id < converted.size := Nat.lt_trans hid hchild
      -- What the other subcommands add leaves this one as it is.
      obtain ⟨hafter, hgrows, hbelow⟩ :=
        shows_of_addSubcommandsOf hconverts.wellFormed hid' hrest
      refine ⟨hafter, hgrown.trans hgrows,
        List.forall_mem_cons.mpr ⟨fun _ => ⟨tree.size, ?_, ?_⟩, hbelow⟩⟩
      · exact hgrows.findSubcommand?_eq hconverts.wellFormed hid' hfind
      · exact hgrows.shows hconverts.wellFormed hchild hconverts.shows

end

/-- The tree of an interface is well-formed. A path of names that leads to a command of the
interface leads to a command of the tree that has the options of that one. -/
theorem shows_of_ofComplete (hconverts : (ofComplete interface).outcome.2 = .ok tree) :
    tree.WellFormed ∧ ∀ path face, interface.Reaches path face → ∃ id,
      tree.findByPath? (interface.face.name :: path) = some id ∧
        face.Declares (tree.command id) := by
  obtain ⟨warnings, hrun⟩ := Logged.outcome_eq_ok.mp hconverts
  obtain ⟨hwf, ⟨command, hname, -, hgrows⟩, hshows⟩ :=
    converts_of_addInterface (WellFormed.new _) Nat.one_pos rfl hrun
  have hprogram : tree.programName = interface.face.name := by
    have hnames := hgrows.names_eq 0 (by simp)
    rw [command_modify_self Nat.one_pos] at hnames
    exact (List.cons.inj hnames).1.trans hname
  refine ⟨hwf, fun path face hreaches => ?_⟩
  obtain ⟨id, hpath, hdeclares⟩ := hshows path face hreaches
  exact ⟨id, by rw [findByPath?, if_pos (beq_iff_eq.mpr hprogram.symm), hpath], hdeclares⟩

end CommandTree
end ShellCompletion
