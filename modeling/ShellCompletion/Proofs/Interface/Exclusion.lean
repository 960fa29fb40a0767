import ShellCompletion.Proofs.Interface.Conversion
import ShellCompletion.Proofs.Scope.Conflicts

/-!
# Arguments that exclude each other

An interface may put an argument into several groups that allow one argument at a time, and an
option is in one group. It is in the first one of its argument. So two options rule out each
other exactly if their arguments have the same first group, and groups that overlap lose
exclusions.
-/

namespace ShellCompletion

namespace CommandFace

variable {face : CommandFace} {argument first second : Argument}

/-- The group is the first one of the command that holds the argument and allows one argument at
a time. -/
def IsFirstExclusive (face : CommandFace) (argument : Argument) (group : ArgumentGroup) : Prop :=
  group.multiple = false ∧ argument.id ∈ group.members ∧ ∃ earlier later,
    face.groups = earlier ++ group :: later ∧
      ∀ other ∈ earlier, other.multiple = true ∨ argument.id ∉ other.members

/-- Two arguments have the same first group that allows one argument at a time. -/
def AreRivals (face : CommandFace) (first second : Argument) : Prop :=
  ∃ group other, face.IsFirstExclusive first group ∧ face.IsFirstExclusive second other ∧
    group.id = other.id

/-- The group of an option is the first group of its argument. -/
theorem exclusiveGroup?_eq_some {name : String} : face.exclusiveGroup? argument = some name ↔
    ∃ group, face.IsFirstExclusive argument group ∧ group.id = name := by
  simp [exclusiveGroup?, List.find?_eq_some_iff_append, IsFirstExclusive, imp_iff_not_or,
    and_assoc]

/-- Arguments have the same first group if their options have the same group. -/
theorem areRivals_iff : face.AreRivals first second ↔
    (face.exclusiveGroup? first).isSome ∧
      face.exclusiveGroup? first = face.exclusiveGroup? second := by
  constructor
  · rintro ⟨group, other, hgroup, hother, hid⟩
    rw [exclusiveGroup?_eq_some.mpr ⟨group, hgroup, rfl⟩,
      exclusiveGroup?_eq_some.mpr ⟨other, hother, rfl⟩, hid]
    exact ⟨rfl, rfl⟩
  · rintro ⟨hsome, heq⟩
    obtain ⟨name, hname⟩ := Option.isSome_iff_exists.mp hsome
    obtain ⟨group, hgroup, rfl⟩ := exclusiveGroup?_eq_some.mp hname
    obtain ⟨other, hother, hid⟩ := exclusiveGroup?_eq_some.mp (heq ▸ hname)
    exact ⟨group, other, hgroup, hother, hid.symm⟩

/-- Having the same first group is mutual. -/
theorem areRivals_comm : face.AreRivals first second ↔ face.AreRivals second first := by
  constructor <;>
  · rintro ⟨group, other, hgroup, hother, hid⟩
    exact ⟨other, group, hother, hgroup, hid.symm⟩

/-- An argument becomes the option at its place. -/
theorem Declares.exists_getElem? {command : Command} (hdeclares : face.Declares command)
    (hargument : argument ∈ face.optionArguments) : ∃ (index : Nat) (option : CommandOption),
      face.optionArguments[index]? = some argument ∧ command.options[index]? = some option ∧
        face.Becomes argument option := by
  obtain ⟨index, hlt, rfl⟩ := List.getElem_of_mem hargument
  have hlt' : index < command.options.length := hdeclares.length_eq ▸ hlt
  exact ⟨index, command.options[index], List.getElem?_eq_getElem hlt,
    List.getElem?_eq_getElem hlt', (List.forall₂_iff_get.mp hdeclares).2 index hlt hlt'⟩

end CommandFace

namespace CommandTree

variable {tree : CommandTree} {config : Config} {id : Nat}

/-- A string of another option of the command conflicts with an option if both are in one
group. -/
theorem WellFormed.mem_conflictingStrings_iff (hwf : tree.WellFormed)
    {declared peer : Declaration} (hdeclared : declared ∈ (tree.scope config id).ownOptions)
    (hpeer : peer ∈ (tree.scope config id).ownOptions) (hne : declared.index ≠ peer.index)
    {string : String} (hstring : string ∈ peer.option.strings) :
    string ∈ (tree.scope config id).conflictingStrings declared ↔
      declared.option.group.isSome ∧ declared.option.group = peer.option.group := by
  let scope := tree.scope config id
  have hdepth : peer.depth = declared.depth :=
    (Command.mem_declarations.mp hpeer).1.trans (Command.mem_declarations.mp hdeclared).1.symm
  have hknown : peer ∈ scope.knownOptions :=
    Scope.mem_knownOptions_of_visible (List.mem_append_left _ hpeer)
  have hexcludes : scope.excludes declared peer = true ↔
      declared.option.group.isSome ∧ declared.option.group = peer.option.group := by
    rw [Scope.excludes, if_neg (by simpa using hne.symm), Bool.and_eq_true, beq_iff_eq]
  rw [Scope.mem_conflictingStrings, ← hexcludes]
  constructor
  · rintro ⟨other, hother, hdepth', hexcludes, hstring'⟩
    rwa [(hwf.distinct config id).eq_of_depth hknown hother (hdepth.trans hdepth'.symm) hstring
      hstring']
  · exact fun hexcludes => ⟨peer, hknown, hdepth, hexcludes, hstring⟩

/-- In the tree of an interface, at every command that is reached, two arguments that are shown
as options become options of which each has the strings of the other among the conflicting ones
if the arguments have the same first group that allows one argument at a time, and none of them
otherwise. -/
theorem conflictingStrings_ofComplete_iff {interface : Interface}
    (hconverts : (ofComplete interface).outcome.2 = .ok tree) {path : List String}
    {face : CommandFace} (hreaches : interface.Reaches path face) (config : Config) :
    ∃ id, tree.findByPath? (interface.face.name :: path) = some id ∧
      ∀ first ∈ face.optionArguments, ∀ second ∈ face.optionArguments, first ≠ second →
        let scope := tree.scope config id
        ∃ a ∈ scope.ownOptions, ∃ b ∈ scope.ownOptions,
          a.option.strings = first.optionStrings ∧ b.option.strings = second.optionStrings ∧
          (∀ string ∈ second.optionStrings,
            (string ∈ scope.conflictingStrings a ↔ face.AreRivals first second)) ∧
          ∀ string ∈ first.optionStrings,
            (string ∈ scope.conflictingStrings b ↔ face.AreRivals first second) := by
  obtain ⟨hwf, hshows⟩ := shows_of_ofComplete hconverts
  obtain ⟨id, hpath, hdeclares⟩ := hshows path face hreaches
  refine ⟨id, hpath, fun first hfirst second hsecond hne => ?_⟩
  intro scope
  obtain ⟨i, option, hi, hoption, hbecomes⟩ := hdeclares.exists_getElem? hfirst
  obtain ⟨j, other, hj, hother, hbecomes'⟩ := hdeclares.exists_getElem? hsecond
  have hij : i ≠ j := by
    rintro rfl
    exact hne (Option.some.inj (hi.symm.trans hj))
  obtain ⟨hstrings, hgroup⟩ := hbecomes.strings_and_group
  obtain ⟨hstrings', hgroup'⟩ := hbecomes'.strings_and_group
  have ha : ⟨scope.depth, i, option⟩ ∈ scope.ownOptions :=
    Command.mem_declarations.mpr ⟨rfl, hoption⟩
  have hb : ⟨scope.depth, j, other⟩ ∈ scope.ownOptions :=
    Command.mem_declarations.mpr ⟨rfl, hother⟩
  refine ⟨_, ha, _, hb, hstrings, hstrings', fun string hstring => ?_, fun string hstring => ?_⟩
  · rw [hwf.mem_conflictingStrings_iff ha hb hij (hstrings' ▸ hstring),
      CommandFace.areRivals_iff, hgroup, hgroup']
  · rw [hwf.mem_conflictingStrings_iff hb ha hij.symm (hstrings ▸ hstring),
      CommandFace.areRivals_comm, CommandFace.areRivals_iff, hgroup, hgroup']

/-! ## Groups apart and groups that overlap -/

/-- An argument that is told by its long name and has no value. -/
def flagArgument (name : String) : Argument where
  id := name
  long := some name
  action := some .setTrue

/-- A subcommand with two formats of which one may be chosen. -/
def exportFace : CommandFace where
  name := "export"
  arguments := [flagArgument "json", flagArgument "yaml"]
  groups := [{ id := "format", members := ["json", "yaml"] }]

/-- A program with the subcommand. -/
def exporter : Interface :=
  .command { name := "prog" } [.command exportFace []]

/-- The subcommand is shown. -/
theorem reaches_exporter : exporter.complete.Reaches ["export"] exportFace.complete := by
  have hmem : .command exportFace.complete [] ∈ exporter.complete.subcommands :=
    List.mem_cons_self
  exact .under hmem rfl (.self _ _)

/-- The two formats rule out each other. -/
theorem conflictingStrings_ofComplete_iff_formats :
    let json := (flagArgument "json").complete
    let yaml := (flagArgument "yaml").complete
    ∃ tree, (ofComplete exporter.complete).outcome.2 = .ok tree ∧
      exporter.complete.Reaches ["export"] exportFace.complete ∧
      exportFace.complete.AreRivals json yaml ∧
      ∃ id, tree.findByPath? ["prog", "export"] = some id ∧
        ∃ a ∈ (tree.scope {} id).ownOptions, ∃ b ∈ (tree.scope {} id).ownOptions,
          a.option.strings = ["--json"] ∧ b.option.strings = ["--yaml"] ∧
            "--yaml" ∈ (tree.scope {} id).conflictingStrings a ∧
            "--json" ∈ (tree.scope {} id).conflictingStrings b := by
  intro json yaml
  have hsome : (ofComplete exporter.complete).outcome.2.toOption.isSome = true := by decide +kernel
  obtain ⟨tree, htree⟩ := Option.isSome_iff_exists.mp hsome
  have hconverts := eq_ok_of_toOption htree
  have hrivals : exportFace.complete.AreRivals json yaml :=
    CommandFace.areRivals_iff.mpr (by decide +kernel)
  obtain ⟨id, hpath, hpairs⟩ := conflictingStrings_ofComplete_iff hconverts reaches_exporter {}
  obtain ⟨a, ha, b, hb, hjson, hyaml, hab, hba⟩ :=
    hpairs json (by decide +kernel) yaml (by decide +kernel) (by decide +kernel)
  refine ⟨tree, hconverts, reaches_exporter, hrivals, id, hpath, a, ha, b, hb, hjson, hyaml, ?_, ?_⟩
  · exact (hab "--yaml" (by decide +kernel)).mpr hrivals
  · exact (hba "--json" (by decide +kernel)).mpr hrivals

/-- A program with an argument in two groups that allow one argument at a time. -/
def overlapping : Interface :=
  .command
    { name := "prog"
      withoutHelpFlag := true
      arguments := [flagArgument "x", flagArgument "y", flagArgument "z"]
      groups := [{ id := "first", members := ["x", "y"] },
        { id := "second", members := ["y", "z"] }] } []

/-- The tree of the program. -/
def overlappingTree : CommandTree :=
  ⟨#[{ command := {
    name := "prog"
    options := [(CommandOption.ofStrings ["--x"] (by decide)).inGroup "first",
      (CommandOption.ofStrings ["--y"] (by decide)).inGroup "first",
      (CommandOption.ofStrings ["--z"] (by decide)).inGroup "second"] } }]⟩

/-- Two arguments may have a group in common that allows one argument at a time, and become
options that do not rule out each other. -/
theorem not_conflicting_of_overlap :
    let face := overlapping.complete.face
    let scope := overlappingTree.scope {} 0
    (ofInterface overlapping).outcome.2 = .ok overlappingTree ∧
      overlapping.complete.Reaches [] face ∧
      ∃ y ∈ face.optionArguments, ∃ z ∈ face.optionArguments, y ≠ z ∧
        (∃ group ∈ face.groups, group.multiple = false ∧
          y.id ∈ group.members ∧ z.id ∈ group.members) ∧
        overlappingTree.findByPath? ["prog"] = some 0 ∧
        ∃ a ∈ scope.ownOptions, ∃ b ∈ scope.ownOptions,
          a.option.strings = y.optionStrings ∧ b.option.strings = z.optionStrings ∧
            (∀ string ∈ z.optionStrings, string ∉ scope.conflictingStrings a) ∧
            ∀ string ∈ y.optionStrings, string ∉ scope.conflictingStrings b := by
  intro face scope
  have hconverts : (ofComplete overlapping.complete).outcome.2.toOption = some overlappingTree := by
    decide +kernel
  refine ⟨eq_ok_of_toOption hconverts, .self _ _, (flagArgument "y").complete, by decide +kernel,
    (flagArgument "z").complete, by decide +kernel, by decide +kernel, by decide +kernel, rfl, ?_⟩
  decide +kernel

end CommandTree
end ShellCompletion
