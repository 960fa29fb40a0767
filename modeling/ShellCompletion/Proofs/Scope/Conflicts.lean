import ShellCompletion.Proofs.Scope.Guards

/-!
# Which options on the command line rule out others

An option is not offered again, and not beside another member of its group. The guard
tests for the strings of these options only. A nearer command may declare such a string
again; the guard takes the option of that command for the group member.
-/

namespace ShellCompletion.Scope

variable {scope : Scope} {declared : Declaration} {line : ParsedLine}

/-- One option of a command is another one in the same group as the declared one. -/
def IsRival (declared peer : Declaration) : Prop :=
  peer.depth = declared.depth ∧ peer.index ≠ declared.index ∧ declared.option.group.isSome ∧
    peer.option.group = declared.option.group

/-- The command line has an option that rules out the declared one: the declared one
itself, unless it is repeatable, or another one of its command and its group. -/
def Suppressed (scope : Scope) (declared : Declaration) (line : ParsedLine) : Prop :=
  ∃ found ∈ line.occurrences, ∃ owner ∈ scope.owner? found.option,
    owner.sameAddress declared = true ∧ scope.isRepeatable declared = false ∨
      IsRival declared owner

/-- The command line has an option of a nearer command under a string that another option
of the declared one's command and group has too. -/
def Captured (scope : Scope) (declared : Declaration) (line : ParsedLine) : Prop :=
  ∃ found ∈ line.occurrences, ∃ owner ∈ scope.owner? found.option,
    declared.depth < owner.depth ∧
      ∃ peer ∈ scope.knownOptions, IsRival declared peer ∧ found.option ∈ peer.option.strings

instance (declared peer : Declaration) : Decidable (IsRival declared peer) :=
  inferInstanceAs (Decidable (_ ∧ _ ∧ _ ∧ _))

instance (scope : Scope) (declared : Declaration) (line : ParsedLine) :
    Decidable (scope.Suppressed declared line) :=
  inferInstanceAs (Decidable (∃ found ∈ line.occurrences, ∃ owner ∈ scope.owner? found.option,
    _ ∨ _))

/-- One option of a command rules out another if it is this one and not repeatable, or if
both are in one group. -/
theorem excludes_iff {peer : Declaration} (hdepth : peer.depth = declared.depth) :
    scope.excludes declared peer = true ↔
      peer.sameAddress declared = true ∧ scope.isRepeatable declared = false ∨
        IsRival declared peer := by
  have haddress : peer.sameAddress declared = true ↔ peer.index = declared.index := by
    simp [Declaration.sameAddress, hdepth]
  have hgroup : (declared.option.group == peer.option.group) = true ↔
      peer.option.group = declared.option.group := by
    rw [beq_iff_eq]
    exact eq_comm
  rw [haddress, excludes]
  by_cases hindex : peer.index = declared.index
  · simp [IsRival, hindex]
  · simp [IsRival, hindex, hdepth, hgroup]

/-- A string conflicts if a peer that is ruled out has it. -/
theorem mem_conflictingStrings {string : String} :
    string ∈ scope.conflictingStrings declared ↔ ∃ peer ∈ scope.knownOptions,
      peer.depth = declared.depth ∧ scope.excludes declared peer = true ∧
        string ∈ peer.option.strings := by
  simp only [conflictingStrings, peers, List.mem_flatMap, List.mem_filter, beq_iff_eq]
  constructor
  · rintro ⟨peer, ⟨⟨hknown, hdepth⟩, hexcludes⟩, hstring⟩
    exact ⟨peer, hknown, hdepth, hexcludes, hstring⟩
  · rintro ⟨peer, hknown, hdepth, hexcludes, hstring⟩
    exact ⟨peer, ⟨⟨hknown, hdepth⟩, hexcludes⟩, hstring⟩

/-- No nearer command owns a string of a visible option. -/
theorem depth_owner_le (hvisible : declared ∈ scope.visibleOptions) {string : String}
    {owner : Declaration} (howner : scope.owner? string = some owner)
    (hstring : string ∈ declared.option.strings) : owner.depth ≤ declared.depth := by
  by_contra hnearer
  obtain ⟨hknown, hstring'⟩ := mem_of_owner? howner
  obtain ⟨_, level, _, hdeclares⟩ := mem_declarationsOf.mp hknown
  obtain ⟨nearer, _, _, hdeclares', hshadow, -⟩ := mem_visibleOptions.mp hvisible
  have hoption := List.mem_of_getElem? (Command.mem_declarations.mp hdeclares.mem).2
  have hlevel := hdeclares.mem_nearer hdeclares' (Nat.lt_of_not_le hnearer)
  exact redeclares_eq_false.mp hshadow level hlevel _ hoption hstring' hstring

/-- The strings of a visible option belong to it. -/
theorem owner?_of_visible (hdistinct : Distinct scope.levels)
    (hvisible : declared ∈ scope.visibleOptions) {string : String}
    (hstring : string ∈ declared.option.strings) : scope.owner? string = some declared := by
  have hknown := mem_knownOptions_of_visible hvisible
  obtain ⟨owner, howner, hle⟩ := exists_owner? hknown hstring
  have hdepth := Nat.le_antisymm hle (depth_owner_le hvisible howner hstring)
  obtain ⟨hknown', hstring'⟩ := mem_of_owner? howner
  rw [howner, hdistinct.eq_of_depth hknown hknown' hdepth hstring hstring']

/-- One of the conflicting strings of a visible option was given exactly if an option that
rules it out was, or one of a nearer command under a string of such an option. -/
theorem hasOption_conflictingStrings (hdistinct : Distinct scope.levels)
    (hvisible : declared ∈ scope.visibleOptions) :
    line.hasOption (scope.conflictingStrings declared) = true ↔
      scope.Suppressed declared line ∨ scope.Captured declared line := by
  rw [ParsedLine.hasOption, List.any_eq_true]
  constructor
  · rintro ⟨found, hfound, hconflict⟩
    rw [List.contains_iff_mem] at hconflict
    obtain ⟨peer, hknown, hdepth, hexcludes, hstring⟩ := mem_conflictingStrings.mp hconflict
    obtain ⟨owner, howner, hle⟩ := exists_owner? hknown hstring
    rcases Nat.eq_or_lt_of_le hle with heq | hlt
    · obtain ⟨hknown', hstring'⟩ := mem_of_owner? howner
      obtain rfl := hdistinct.eq_of_depth hknown hknown' heq hstring hstring'
      exact .inl ⟨found, hfound, peer, howner, (excludes_iff hdepth).mp hexcludes⟩
    · rcases (excludes_iff hdepth).mp hexcludes with ⟨haddress, -⟩ | hrival
      · -- The string would be one of the visible option itself.
        obtain rfl := eq_of_sameAddress hknown (mem_knownOptions_of_visible hvisible) haddress
        have hle := depth_owner_le hvisible howner hstring
        omega
      · exact .inr ⟨found, hfound, owner, howner, by omega, peer, hknown, hrival, hstring⟩
  · rintro (⟨found, hfound, owner, howner, hexcludes⟩ |
      ⟨found, hfound, -, -, -, peer, hknown, hrival, hstring⟩)
    · obtain ⟨hknown, hstring⟩ := mem_of_owner? howner
      have hdepth : owner.depth = declared.depth := by
        rcases hexcludes with ⟨haddress, -⟩ | hrival
        · exact (by simpa [Declaration.sameAddress] using haddress : _ ∧ _).1
        · exact hrival.1
      have hconflict := mem_conflictingStrings.mpr
        ⟨owner, hknown, hdepth, (excludes_iff hdepth).mpr hexcludes, hstring⟩
      exact ⟨found, hfound, List.contains_iff_mem.mpr hconflict⟩
    · have hconflict := mem_conflictingStrings.mpr
        ⟨peer, hknown, hrival.1, (excludes_iff hrival.1).mpr (.inr hrival), hstring⟩
      exact ⟨found, hfound, List.contains_iff_mem.mpr hconflict⟩

end ShellCompletion.Scope

namespace ShellCompletion.CommandTree

/-- The guard of an option without a condition fails exactly for the command lines with an
option that rules out the declared one or with one that a nearer command declares under a
string of such an option. So it suppresses exactly the options that are ruled out on every
command line where the second implies the first. -/
theorem optionGuard_holds_iff {tree : CommandTree} {config : Config} {id : Nat}
    {declared : Declaration} (hbuilt : tree.Built)
    (hvisible : declared ∈ (tree.scope config id).visibleOptions)
    (hwhen : declared.option.when = none) (words : List String) :
    let scope := tree.scope config id
    let line := scope.optionTable.parseLine words
    ∃ guard, scope.optionGuard declared = .ok guard ∧
      (guard.holds line = false ↔ scope.Suppressed declared line ∨ scope.Captured declared line) ∧
      ((guard.holds line = false ↔ scope.Suppressed declared line) ↔
        (scope.Captured declared line → scope.Suppressed declared line)) := by
  intro scope line
  have hshown : scope.whenGuard declared.option.when = .ok .always := by
    rw [hwhen]
    rfl
  obtain ⟨guard, hguard, hholds⟩ := Scope.exists_optionGuard hshown
  have hiff : guard.holds line = false ↔
      scope.Suppressed declared line ∨ scope.Captured declared line := by
    rw [hholds, Guard.holds, Guard.eval_always, Bool.and_true, Bool.not_eq_false',
      Scope.hasOption_conflictingStrings (hbuilt.wellFormed.distinct config id) hvisible]
  refine ⟨guard, hguard, hiff, ?_⟩
  rw [hiff]
  tauto

/-- A program with two formats that exclude each other. -/
def formats : List CommandOption :=
  [(CommandOption.ofStrings ["--json"] (by decide)).inGroup "format",
    (CommandOption.ofStrings ["--yaml"] (by decide)).inGroup "format"]

/-- The formats are told apart. -/
theorem pairwise_formats : formats.Pairwise fun a b => a.strings.Disjoint b.strings := by
  simp [formats, CommandOption.ofStrings, CommandOption.inGroup]

/-- A subcommand with a flag under the string of one format. -/
def yamlFlag : List CommandOption :=
  [CommandOption.ofStrings ["--yaml"] (by decide)]

/-- The first format, seen from anywhere. -/
def jsonFormat : Declaration :=
  ⟨0, 0, (CommandOption.ofStrings ["--json"] (by decide)).inGroup "format"⟩

/-- The premises hold of a format and a subcommand that inherits it. -/
theorem optionGuard_holds_iff_formats :
    let scope := (withHeir formats []).scope {} 1
    let line := scope.optionTable.parseLine ["sub", "--yaml"]
    (withHeir formats []).Built ∧ jsonFormat ∈ scope.visibleOptions ∧
      ∃ guard, scope.optionGuard jsonFormat = .ok guard ∧
        (guard.holds line = false ↔
          scope.Suppressed jsonFormat line ∨ scope.Captured jsonFormat line) ∧
        ((guard.holds line = false ↔ scope.Suppressed jsonFormat line) ↔
          (scope.Captured jsonFormat line → scope.Suppressed jsonFormat line)) := by
  have hbuilt : (withHeir formats []).Built := built_withHeir pairwise_formats .nil
  have hvisible : jsonFormat ∈ ((withHeir formats []).scope {} 1).visibleOptions := by
    decide +kernel
  exact ⟨hbuilt, hvisible, optionGuard_holds_iff hbuilt hvisible rfl ["sub", "--yaml"]⟩

/-- If the subcommand has a flag under the string of the other format, giving the flag
suppresses the format although nothing was given that rules it out. -/
theorem not_suppressed_of_captured :
    let scope := (withHeir formats yamlFlag).scope {} 1
    let line := scope.optionTable.parseLine ["sub", "--yaml"]
    (withHeir formats yamlFlag).Built ∧ jsonFormat ∈ scope.visibleOptions ∧
      jsonFormat.option.when = none ∧
      ∃ guard, scope.optionGuard jsonFormat = .ok guard ∧
        ¬ (guard.holds line = false ↔ scope.Suppressed jsonFormat line) := by
  refine ⟨built_withHeir pairwise_formats (List.pairwise_singleton _ _), by decide +kernel, rfl, _,
    rfl, ?_⟩
  decide +kernel

end ShellCompletion.CommandTree
