import Mathlib.Data.List.Basic
import ShellCompletion.Proofs.CommandTree.Walk
import ShellCompletion.Scope.Basic

/-!
# Declarations in a scope

A declaration is known in a scope if one of its levels makes it, and visible if no nearer
level declares one of its strings again. Among the visible declarations, a string belongs
to one only; among the known ones, to the nearest.
-/

namespace ShellCompletion

variable {levels : List Level} {declared other : Declaration} {string : String}

/-- An option answers to its strings. -/
theorem CommandOption.answersTo_iff {option : CommandOption} :
    option.answersTo string = true ↔ string ∈ option.strings := by
  simp [answersTo]

/-- The options of a command with their indices. -/
theorem Command.mem_declarations {command : Command} {depth : Nat} :
    declared ∈ command.declarations depth ↔
      declared.depth = depth ∧ command.options[declared.index]? = some declared.option := by
  obtain ⟨depth', index, option⟩ := declared
  simp only [declarations, List.mem_map, List.mem_zipIdx_iff_getElem?, Prod.exists,
    Declaration.mk.injEq]
  constructor
  · rintro ⟨option', index', hoption, rfl, rfl, rfl⟩
    exact ⟨rfl, hoption⟩
  · rintro ⟨rfl, hoption⟩
    exact ⟨option, index, hoption, rfl, rfl, rfl⟩

namespace Scope

/-- A level that makes a declaration, with the levels on both sides of it. -/
structure Declares (levels nearer : List Level) (level : Level) (outer : List Level)
    (declared : Declaration) : Prop where
  /-- Where the level stands. -/
  levels_eq : levels = nearer ++ level :: outer
  /-- The level makes the declaration. -/
  mem : declared ∈ level.command.declarations outer.length

/-- Equally deep declarations are made by the same level. -/
theorem Declares.level_eq {nearer nearer' outer outer' : List Level} {level level' : Level}
    (hfirst : Declares levels nearer level outer declared)
    (hsecond : Declares levels nearer' level' outer' other)
    (hdepth : declared.depth = other.depth) :
    nearer = nearer' ∧ level = level' ∧ outer = outer' := by
  have hlength : outer.length = outer'.length := by
    rw [← (Command.mem_declarations.mp hfirst.mem).1, hdepth,
      (Command.mem_declarations.mp hsecond.mem).1]
  have hlevels := hfirst.levels_eq.symm.trans hsecond.levels_eq
  have hparts := List.append_inj' hlevels (by simp [hlength])
  simp only [List.cons.injEq] at hparts
  exact ⟨hparts.1, hparts.2⟩

/-- The level of a deeper declaration is nearer. -/
theorem Declares.mem_nearer {nearer nearer' outer outer' : List Level} {level level' : Level}
    (hnear : Declares levels nearer' level' outer' other)
    (hfar : Declares levels nearer level outer declared) (hlt : declared.depth < other.depth) :
    level' ∈ nearer := by
  rw [(Command.mem_declarations.mp hfar.mem).1, (Command.mem_declarations.mp hnear.mem).1] at hlt
  have hlevels := hfar.levels_eq.symm.trans hnear.levels_eq
  rcases List.append_eq_append_iff.mp hlevels with ⟨between, -, hrest⟩ | ⟨between, hnearer, hrest⟩
  · have hlength := congrArg List.length hrest
    simp only [List.length_cons, List.length_append] at hlength
    omega
  · cases between with
    | nil =>
      rw [List.nil_append, List.cons.injEq] at hrest
      rw [hrest.2] at hlt
      omega
    | cons first between =>
      rw [List.cons_append, List.cons.injEq] at hrest
      rw [hnearer, hrest.1]
      simp

/-- The known declarations are those that some level makes. -/
theorem mem_declarationsOf : declared ∈ declarationsOf levels ↔
    ∃ nearer level outer, Declares levels nearer level outer declared := by
  induction levels with
  | nil =>
    refine ⟨fun h => absurd h List.not_mem_nil, ?_⟩
    rintro ⟨nearer, level, outer, hlevels, -⟩
    simp at hlevels
  | cons first rest ih =>
    rw [declarationsOf, List.mem_append, ih]
    constructor
    · rintro (hfirst | ⟨nearer, level, outer, hlevels, hmem⟩)
      · exact ⟨[], first, rest, rfl, hfirst⟩
      · exact ⟨first :: nearer, level, outer, by rw [hlevels, List.cons_append], hmem⟩
    · rintro ⟨nearer, level, outer, hlevels, hmem⟩
      cases nearer with
      | nil =>
        cases hlevels
        exact .inl hmem
      | cons _ nearer =>
        cases hlevels
        exact .inr ⟨nearer, level, outer, rfl, hmem⟩

/-- The unshadowed declarations are those of whose strings no nearer level declares one. -/
theorem mem_unshadowed {before : List Level} : declared ∈ unshadowed before levels ↔
    ∃ nearer level outer, Declares levels nearer level outer declared ∧
      redeclares (before ++ nearer) declared.option.strings = false := by
  induction levels generalizing before with
  | nil =>
    refine ⟨fun h => absurd h List.not_mem_nil, ?_⟩
    rintro ⟨nearer, level, outer, ⟨hlevels, -⟩, -⟩
    simp at hlevels
  | cons first rest ih =>
    rw [unshadowed, List.mem_append, List.mem_filter, ih]
    constructor
    · rintro (⟨hfirst, hshadow⟩ | ⟨nearer, level, outer, ⟨hlevels, hmem⟩, hshadow⟩)
      · exact ⟨[], first, rest, ⟨rfl, hfirst⟩, by simpa using hshadow⟩
      · refine ⟨first :: nearer, level, outer, ⟨by rw [hlevels, List.cons_append], hmem⟩, ?_⟩
        rwa [List.append_cons]
    · rintro ⟨nearer, level, outer, ⟨hlevels, hmem⟩, hshadow⟩
      cases nearer with
      | nil =>
        cases hlevels
        exact .inl ⟨hmem, by simpa using hshadow⟩
      | cons _ nearer =>
        cases hlevels
        refine .inr ⟨nearer, level, outer, ⟨rfl, hmem⟩, ?_⟩
        rwa [List.append_cons] at hshadow

/-- The visible declarations are the command's own and, if it inherits options, those of
whose strings no nearer level declares one. -/
theorem mem_visibleOptions {scope : Scope} : declared ∈ scope.visibleOptions ↔
    ∃ nearer level outer, Declares scope.levels nearer level outer declared ∧
      redeclares nearer declared.option.strings = false ∧
      (nearer = [] ∨ scope.inheritOptions = true) := by
  have hown : declared ∈ scope.ownOptions ↔
      Declares scope.levels [] scope.own scope.outer declared :=
    ⟨fun hmem => ⟨rfl, hmem⟩, fun hdeclares => hdeclares.mem⟩
  rw [visibleOptions, List.mem_append, hown, inheritedOptions]
  constructor
  · rintro (hdeclares | hinherited)
    · exact ⟨[], scope.own, scope.outer, hdeclares, rfl, .inl rfl⟩
    · split at hinherited
      · rename_i hinherit
        obtain ⟨nearer, level, outer, ⟨hlevels, hmem⟩, hshadow⟩ := mem_unshadowed.mp hinherited
        refine ⟨scope.own :: nearer, level, outer, ⟨?_, hmem⟩, hshadow, .inr hinherit⟩
        rw [levels, hlevels, List.cons_append]
      · cases hinherited
  · rintro ⟨nearer, level, outer, ⟨hlevels, hmem⟩, hshadow, hinherit⟩
    cases nearer with
    | nil =>
      rw [levels, List.nil_append, List.cons.injEq] at hlevels
      obtain ⟨rfl, rfl⟩ := hlevels
      exact .inl ⟨rfl, hmem⟩
    | cons first nearer =>
      rw [levels, List.cons_append, List.cons.injEq] at hlevels
      obtain ⟨rfl, houter⟩ := hlevels
      rw [if_pos (hinherit.resolve_left (List.cons_ne_nil _ _))]
      exact .inr (mem_unshadowed.mpr ⟨nearer, level, outer, ⟨houter, hmem⟩, hshadow⟩)

/-- Visible declarations are known. -/
theorem mem_knownOptions_of_visible {scope : Scope} (hvisible : declared ∈ scope.visibleOptions) :
    declared ∈ scope.knownOptions := by
  obtain ⟨nearer, level, outer, hdeclares, -⟩ := mem_visibleOptions.mp hvisible
  exact mem_declarationsOf.mpr ⟨nearer, level, outer, hdeclares⟩

/-- Levels redeclare strings if one of their commands declares one of them. -/
theorem redeclares_eq_false {strings : List String} : redeclares levels strings = false ↔
    ∀ level ∈ levels, ∀ option ∈ level.command.options, option.strings.Disjoint strings := by
  simp only [redeclares, List.any_eq_false, Bool.not_eq_true, List.contains_eq_mem,
    decide_eq_false_iff_not]
  rfl

/-! ## Telling declarations apart -/

/-- Levels whose commands tell their options apart. -/
def Distinct (levels : List Level) : Prop :=
  ∀ level ∈ levels, level.command.options.Pairwise fun a b => a.strings.Disjoint b.strings

/-- There is one declaration at an address. -/
theorem eq_of_sameAddress (hfirst : declared ∈ declarationsOf levels)
    (hsecond : other ∈ declarationsOf levels) (haddress : declared.sameAddress other = true) :
    declared = other := by
  obtain ⟨hdepth, hindex⟩ : declared.depth = other.depth ∧ declared.index = other.index := by
    simpa [Declaration.sameAddress] using haddress
  obtain ⟨nearer, level, outer, hdeclares⟩ := mem_declarationsOf.mp hfirst
  obtain ⟨_, _, _, hdeclares'⟩ := mem_declarationsOf.mp hsecond
  obtain ⟨rfl, rfl, rfl⟩ := hdeclares.level_eq hdeclares' hdepth
  obtain ⟨-, hoption⟩ := Command.mem_declarations.mp hdeclares.mem
  obtain ⟨-, hoption'⟩ := Command.mem_declarations.mp hdeclares'.mem
  obtain ⟨depth, index, option⟩ := declared
  obtain ⟨depth', index', option'⟩ := other
  simp only at hdepth hindex hoption hoption'
  subst hdepth hindex
  rw [hoption] at hoption'
  cases hoption'
  rfl

/-- Of the declarations of one level, only one has a string. -/
theorem Distinct.eq_of_depth (hdistinct : Distinct levels)
    (hfirst : declared ∈ declarationsOf levels) (hsecond : other ∈ declarationsOf levels)
    (hdepth : declared.depth = other.depth) (hstring : string ∈ declared.option.strings)
    (hstring' : string ∈ other.option.strings) : declared = other := by
  obtain ⟨nearer, level, outer, hdeclares⟩ := mem_declarationsOf.mp hfirst
  obtain ⟨_, _, _, hdeclares'⟩ := mem_declarationsOf.mp hsecond
  obtain ⟨rfl, rfl, rfl⟩ := hdeclares.level_eq hdeclares' hdepth
  have hlevel : level ∈ levels := by
    rw [hdeclares.levels_eq]
    simp
  have hpairs := List.pairwise_iff_getElem.mp (hdistinct level hlevel)
  obtain ⟨hlt, hget⟩ :=
    List.getElem?_eq_some_iff.mp (Command.mem_declarations.mp hdeclares.mem).2
  obtain ⟨hlt', hget'⟩ :=
    List.getElem?_eq_some_iff.mp (Command.mem_declarations.mp hdeclares'.mem).2
  rw [← hget] at hstring
  rw [← hget'] at hstring'
  have hindex : declared.index = other.index := by
    rcases Nat.lt_trichotomy declared.index other.index with hless | heq | hless
    · exact absurd hstring' (hpairs _ _ hlt hlt' hless hstring)
    · exact heq
    · exact absurd hstring (hpairs _ _ hlt' hlt hless hstring')
  exact eq_of_sameAddress hfirst hsecond (by simp [Declaration.sameAddress, hdepth, hindex])

/-- Known declarations stand in the order of their levels, the nearest first. -/
theorem pairwise_declarationsOf (levels : List Level) :
    (declarationsOf levels).Pairwise fun a b => b.depth ≤ a.depth := by
  induction levels with
  | nil => exact List.Pairwise.nil
  | cons level outer ih =>
    refine List.pairwise_append.mpr ⟨?_, ih, ?_⟩
    · refine List.pairwise_of_forall_mem_list fun a ha b hb => ?_
      exact Nat.le_of_eq ((Command.mem_declarations.mp hb).1.trans
        (Command.mem_declarations.mp ha).1.symm)
    · intro near hnear far hfar
      obtain ⟨nearer, _, rest, hlevels, hmem⟩ := mem_declarationsOf.mp hfar
      rw [(Command.mem_declarations.mp hnear).1, (Command.mem_declarations.mp hmem).1, hlevels]
      simp
      omega

/-- No declaration is known twice. -/
theorem nodup_declarationsOf (levels : List Level) : (declarationsOf levels).Nodup := by
  induction levels with
  | nil => exact List.nodup_nil
  | cons level outer ih =>
    refine List.nodup_append.mpr ⟨?_, ih, ?_⟩
    · have hindices : ((level.command.declarations outer.length).map (·.index)) =
          List.range' 0 level.command.options.length := by
        rw [← List.zipIdx_map_snd, Command.declarations, List.map_map]
        rfl
      exact List.Nodup.of_map (·.index) (hindices ▸ List.nodup_range')
    · rintro near hnear far hfar rfl
      obtain ⟨nearer, _, rest, hlevels, hmem⟩ := mem_declarationsOf.mp hfar
      have hdepth := (Command.mem_declarations.mp hnear).1.symm.trans
        (Command.mem_declarations.mp hmem).1
      rw [hlevels, List.length_append, List.length_cons] at hdepth
      omega

/-- Two visible declarations of one string are the same. -/
theorem Distinct.eq_of_visible {scope : Scope} (hdistinct : Distinct scope.levels)
    (hfirst : declared ∈ scope.visibleOptions) (hsecond : other ∈ scope.visibleOptions)
    (hstring : string ∈ declared.option.strings) (hstring' : string ∈ other.option.strings) :
    declared = other := by
  -- If one level is nearer, its declaration shadows the other one.
  have hshadows : ∀ {near far : Declaration}, near ∈ scope.visibleOptions →
      far ∈ scope.visibleOptions → far.depth < near.depth → string ∈ near.option.strings →
      string ∉ far.option.strings := by
    intro near far hnear hfar hlt hmem hmem'
    obtain ⟨nearer, level, outer, hdeclares, hshadow, -⟩ := mem_visibleOptions.mp hfar
    obtain ⟨_, level', _, hdeclares', -⟩ := mem_visibleOptions.mp hnear
    have hoption := List.mem_of_getElem? (Command.mem_declarations.mp hdeclares'.mem).2
    exact redeclares_eq_false.mp hshadow level' (hdeclares'.mem_nearer hdeclares hlt) _ hoption
      hmem hmem'
  rcases Nat.lt_trichotomy declared.depth other.depth with hlt | heq | hlt
  · exact absurd hstring (hshadows hsecond hfirst hlt hstring')
  · exact hdistinct.eq_of_depth (mem_knownOptions_of_visible hfirst)
      (mem_knownOptions_of_visible hsecond) heq hstring hstring'
  · exact absurd hstring' (hshadows hfirst hsecond hlt hstring)

/-- The option found for a string is the visible one that has the string. -/
theorem Distinct.findOption?_eq_some {scope : Scope} (hdistinct : Distinct scope.levels) :
    scope.findOption? string = some declared ↔
      declared ∈ scope.visibleOptions ∧ string ∈ declared.option.strings := by
  constructor
  · intro hfind
    have hstring := List.find?_some hfind
    exact ⟨List.mem_of_find?_eq_some hfind, CommandOption.answersTo_iff.mp hstring⟩
  · rintro ⟨hvisible, hstring⟩
    have hsome : (scope.findOption? string).isSome :=
      List.find?_isSome.mpr ⟨declared, hvisible, CommandOption.answersTo_iff.mpr hstring⟩
    obtain ⟨found, hfind⟩ := Option.isSome_iff_exists.mp hsome
    have hfound := List.find?_some hfind
    rw [hfind, hdistinct.eq_of_visible (List.mem_of_find?_eq_some hfind) hvisible
      (CommandOption.answersTo_iff.mp hfound) hstring]

/-- The declaration that a string on the command line belongs to: the nearest one. -/
def owner? (scope : Scope) (string : String) : Option Declaration :=
  scope.knownOptions.find? (·.option.answersTo string)

/-- The owner of a string is known and has it. -/
theorem mem_of_owner? {scope : Scope} (howner : scope.owner? string = some declared) :
    declared ∈ scope.knownOptions ∧ string ∈ declared.option.strings := by
  have hstring := List.find?_some howner
  exact ⟨List.mem_of_find?_eq_some howner, CommandOption.answersTo_iff.mp hstring⟩

/-- A known string has an owner, and no declaration of the string is nearer. -/
theorem exists_owner? {scope : Scope} (hknown : declared ∈ scope.knownOptions)
    (hstring : string ∈ declared.option.strings) :
    ∃ owner, scope.owner? string = some owner ∧ declared.depth ≤ owner.depth := by
  have hanswers := CommandOption.answersTo_iff.mpr hstring
  have hsome : (scope.owner? string).isSome := List.find?_isSome.mpr ⟨declared, hknown, hanswers⟩
  obtain ⟨owner, howner⟩ := Option.isSome_iff_exists.mp hsome
  refine ⟨owner, howner, ?_⟩
  obtain ⟨-, before, after, hsplit, hbefore⟩ := List.find?_eq_some_iff_append.mp howner
  have hpairs := pairwise_declarationsOf scope.levels
  rw [knownOptions] at hknown hsplit
  rw [hsplit] at hknown hpairs
  rcases List.mem_append.mp hknown with hmem | hmem
  · simpa [hanswers] using hbefore declared hmem
  · rcases List.mem_cons.mp hmem with rfl | hmem
    · exact Nat.le_refl _
    · exact (List.pairwise_cons.mp (List.pairwise_append.mp hpairs).2.1).1 declared hmem

end Scope

/-- Every scope of a well-formed tree tells the options of a command apart. -/
theorem CommandTree.WellFormed.distinct {tree : CommandTree} (hwf : tree.WellFormed)
    (config : Config) (id : Nat) : Scope.Distinct (tree.scope config id).levels := by
  intro level hlevel
  have hline : (tree.scope config id).levels = (tree.lineage id).map tree.level := rfl
  rw [hline] at hlevel
  obtain ⟨ancestor, -, rfl⟩ := List.mem_map.mp hlevel
  exact hwf.disjoint ancestor

/-! ## A subcommand that inherits options -/

/-- A flag of which only the option strings matter. -/
def CommandOption.ofStrings (strings : List String)
    (sound : optionStringsFault? strings = none) : CommandOption where
  strings := strings
  metavar := none
  help := ""
  arity := .absent
  repeatable := .inherit
  group := none
  when := none
  completion := .none
  strings_sound := sound

/-- A program with a subcommand that inherits its options. -/
def CommandTree.withHeir (outer inner : List CommandOption) : CommandTree :=
  ⟨#[{ command := { name := "prog", options := outer, slot := some {} }, children := [1] },
    { command := { name := "sub", inheritOptions := .set true, options := inner },
      parent := some 0 }]⟩

/-- Operations build a program with a subcommand that inherits its options. -/
theorem CommandTree.built_withHeir {outer inner : List CommandOption}
    (houter : outer.Pairwise fun a b => a.strings.Disjoint b.strings)
    (hinner : inner.Pairwise fun a b => a.strings.Disjoint b.strings) :
    (withHeir outer inner).Built := by
  have hprogram := (Built.new "prog").addOptions Nat.one_pos houter
  have hsub := hprogram.step (.addSubcommand 0 "sub" "" Nat.one_pos rfl)
  have hinherits := hsub.step (.describe 1
    (fun command => { command with inheritOptions := .set true }) (fun _ => ⟨rfl, rfl, rfl⟩)
    (Nat.lt_add_one 1))
  exact hinherits.addOptions (Nat.lt_add_one 1) hinner

end ShellCompletion
