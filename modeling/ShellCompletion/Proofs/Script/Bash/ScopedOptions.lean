import ShellCompletion.Proofs.CommandOption
import ShellCompletion.Proofs.Scope.Visibility
import ShellCompletion.Proofs.Text.Fresh
import ShellCompletion.Script.Bash.ScopedOption

/-!
# Which option a bash function takes a string for

A bash function keeps for every option the strings that no nearer option has. So each known
string belongs to one option of the function, the one whose declaration the string belongs to
on the command line, and the words of an option are those that stand for its strings.
-/

namespace ShellCompletion.Bash

variable {scope : Scope} {declared : Declaration} {list : List Declaration}
  {claimed taken tokens strings : List String} {string word : String}
  {claims : List (Declaration × List String)} {option other : ScopedOption}
  {spellings : Spellings} {letter : Char}

/-! ## Claims -/

/-- The first declaration claims its strings that were not claimed before, and the others claim
what is left. -/
theorem exists_mem_claim_cons {first : Declaration} {rest : List Declaration} :
    (∃ strings, (declared, strings) ∈ claim claimed (first :: rest) ∧ string ∈ strings) ↔
      (first = declared ∧ string ∈ first.option.strings ∧ string ∉ claimed) ∨
        ∃ strings, (declared, strings) ∈
          claim (claimed ++ first.option.strings.filter (!claimed.contains ·)) rest ∧
            string ∈ strings := by
  have hkept : string ∈ first.option.strings ∧ string ∉ claimed ↔
      string ∈ first.option.strings.filter (!claimed.contains ·) := by
    simp [List.mem_filter]
  rw [claim, hkept]
  split
  · rename_i hempty
    rw [List.isEmpty_iff.mp hempty]
    simp
  · simp only [List.mem_cons, Prod.mk.injEq, or_and_right, exists_or, and_assoc, exists_and_left,
      exists_eq_left, eq_comm]

/-- A string is claimed by the first declaration that has it, unless it was claimed before. -/
theorem exists_mem_claim : (∃ strings, (declared, strings) ∈ claim claimed list ∧
      string ∈ strings) ↔
    string ∉ claimed ∧ list.find? (·.option.answersTo string) = some declared := by
  induction list generalizing claimed with
  | nil => simp [claim]
  | cons first rest ih =>
    rw [exists_mem_claim_cons, ih, List.find?_cons, List.mem_append, List.mem_filter]
    by_cases hfirst : string ∈ first.option.strings
    · rw [CommandOption.answersTo_iff.mpr hfirst]
      simp only [hfirst, true_and, Option.some.injEq, Bool.not_eq_true', List.contains_eq_mem,
        decide_eq_false_iff_not]
      tauto
    · have hnone : first.option.answersTo string = false := by
        rw [← Bool.not_eq_true, CommandOption.answersTo_iff]
        exact hfirst
      rw [hnone]
      simp [hfirst]

/-- The claims keep the order of the declarations. -/
theorem map_claim_sublist (claimed : List String) (list : List Declaration) :
    ((claim claimed list).map (·.1)).Sublist list := by
  induction list generalizing claimed with
  | nil => exact List.Sublist.slnil
  | cons first rest ih =>
    rw [claim]
    split
    · exact (ih claimed).cons first
    · exact (ih _).cons_cons first

/-! ## Scoped options -/

/-- The scoped options stand for the claims in their order. -/
theorem map_nameClaims (tokens : List String) (spellings : Spellings) (taken : List String)
    (claims : List (Declaration × List String)) :
    (nameClaims tokens spellings taken claims).map
      (fun option => (option.declared, option.strings)) = claims := by
  induction claims generalizing taken with
  | nil => rfl
  | cons first rest ih => rw [nameClaims, List.map_cons, ih]

/-- The words and letters of a scoped option are those of its strings. -/
theorem words_of_mem_nameClaims (hoption : option ∈ nameClaims tokens spellings taken claims) :
    option.words = spelledWords tokens spellings option.strings ∧
      option.letters = shortLetters option.strings := by
  induction claims generalizing taken with
  | nil => cases hoption
  | cons first rest ih =>
    rcases List.mem_cons.mp hoption with rfl | hrest
    · exact ⟨rfl, rfl⟩
    · exact ih hrest

/-- The names of scoped options are made different from each other. -/
theorem map_name_nameClaims (tokens : List String) (spellings : Spellings) (taken : List String)
    (claims : List (Declaration × List String)) :
    (nameClaims tokens spellings taken claims).map (·.name) =
      distinctNames taken (claims.map (baseName ·.2)) := by
  induction claims generalizing taken with
  | nil => rfl
  | cons first rest ih => rw [nameClaims, List.map_cons, ih, List.map_cons, distinctNames]

/-- The options of a function stand for the claims of all known strings. -/
theorem map_scopedOptions (scope : Scope) :
    (scopedOptions scope).map (fun option => (option.declared, option.strings)) =
      claim [] scope.knownOptions :=
  map_nameClaims _ _ _ _

/-- The options of a function have the strings that belong to their declarations. -/
theorem exists_scopedOption : (∃ option ∈ scopedOptions scope, option.declared = declared ∧
    string ∈ option.strings) ↔ scope.owner? string = some declared := by
  have hclaim : (∃ strings, (declared, strings) ∈ claim [] scope.knownOptions ∧
      string ∈ strings) ↔ scope.owner? string = some declared := by
    rw [exists_mem_claim, Scope.owner?]
    simp
  rw [← hclaim, ← map_scopedOptions]
  constructor
  · rintro ⟨option, hoption, rfl, hstring⟩
    exact ⟨option.strings, List.mem_map_of_mem hoption, hstring⟩
  · rintro ⟨strings, hmem, hstring⟩
    obtain ⟨option, hoption, hsame⟩ := List.mem_map.mp hmem
    cases hsame
    exact ⟨option, hoption, rfl, hstring⟩

/-- A string of an option of a function belongs to its declaration. -/
theorem owner?_of_mem_strings (hoption : option ∈ scopedOptions scope)
    (hstring : string ∈ option.strings) : scope.owner? string = some option.declared :=
  exists_scopedOption.mp ⟨option, hoption, rfl, hstring⟩

/-- The options of a function stand for known declarations. -/
theorem declared_mem_knownOptions (hoption : option ∈ scopedOptions scope) :
    option.declared ∈ scope.knownOptions := by
  refine (map_claim_sublist [] scope.knownOptions).subset ?_
  rw [← map_scopedOptions, List.map_map]
  exact List.mem_map_of_mem hoption

/-- Every option of a function stands for one declaration. -/
theorem eq_of_declared_eq (hoption : option ∈ scopedOptions scope)
    (hother : other ∈ scopedOptions scope) (hdeclared : option.declared = other.declared) :
    option = other := by
  have hdeclarations : (scopedOptions scope).map (·.declared) =
      (claim [] scope.knownOptions).map (·.1) := by
    rw [← map_scopedOptions, List.map_map]
    rfl
  have hnodup : ((scopedOptions scope).map (·.declared)).Nodup := by
    rw [hdeclarations]
    exact (map_claim_sublist [] _).nodup (Scope.nodup_declarationsOf scope.levels)
  exact List.inj_on_of_nodup_map hnodup hoption hother hdeclared

/-- No two options of a function have the same address. -/
theorem eq_of_sameAddress (hoption : option ∈ scopedOptions scope)
    (hother : other ∈ scopedOptions scope)
    (haddress : option.declared.sameAddress other.declared = true) : option = other :=
  eq_of_declared_eq hoption hother (Scope.eq_of_sameAddress (declared_mem_knownOptions hoption)
    (declared_mem_knownOptions hother) haddress)

/-- The strings of an option of a function are those that belong to its declaration. -/
theorem mem_strings_iff (hoption : option ∈ scopedOptions scope) :
    string ∈ option.strings ↔ scope.owner? string = some option.declared := by
  refine ⟨owner?_of_mem_strings hoption, fun howner => ?_⟩
  obtain ⟨other, hother, hdeclared, hstring⟩ := exists_scopedOption.mpr howner
  rwa [eq_of_declared_eq hoption hother hdeclared.symm]

/-- No two options of a function have a string in common. -/
theorem eq_of_mem_strings (hoption : option ∈ scopedOptions scope)
    (hother : other ∈ scopedOptions scope) (hstring : string ∈ option.strings)
    (hstring' : string ∈ other.strings) : option = other := by
  have hsame := (owner?_of_mem_strings hoption hstring).symm.trans
    (owner?_of_mem_strings hother hstring')
  exact eq_of_declared_eq hoption hother (Option.some.inj hsame)

/-- A string is looked up among the options of a function as its owner. -/
theorem ownerOf?_eq_some_iff : ownerOf? (scopedOptions scope) string = some option ↔
    option ∈ scopedOptions scope ∧ scope.owner? string = some option.declared := by
  constructor
  · intro hfind
    have hoption := List.mem_of_find?_eq_some hfind
    have hstring : string ∈ option.strings := by simpa using List.find?_some hfind
    exact ⟨hoption, owner?_of_mem_strings hoption hstring⟩
  · rintro ⟨hoption, howner⟩
    have hstring := (mem_strings_iff hoption).mpr howner
    have hsome : (ownerOf? (scopedOptions scope) string).isSome :=
      List.find?_isSome.mpr ⟨option, hoption, by simpa using hstring⟩
    obtain ⟨found, hfound⟩ := Option.isSome_iff_exists.mp hsome
    have hmem : string ∈ found.strings := by simpa using List.find?_some hfound
    rw [hfound, eq_of_mem_strings (List.mem_of_find?_eq_some hfound) hoption hmem hstring]

/-- No two options of a function have the same name. -/
theorem eq_of_name_eq (hoption : option ∈ scopedOptions scope)
    (hother : other ∈ scopedOptions scope) (hname : option.name = other.name) : option = other := by
  have hnodup : ((scopedOptions scope).map (·.name)).Nodup := by
    rw [scopedOptions, map_name_nameClaims]
    exact (nodup_distinctNames _ _).1
  exact List.inj_on_of_nodup_map hnodup hoption hother hname

/-- A string belongs to the option whose name is that of the option that has it. -/
theorem mem_strings_iff_name_eq (hoption : option ∈ scopedOptions scope)
    (hother : other ∈ scopedOptions scope) (hstring : string ∈ option.strings) :
    string ∈ other.strings ↔ other.name = option.name := by
  constructor
  · intro hmem
    rw [eq_of_mem_strings hother hoption hmem hstring]
  · intro hname
    rwa [eq_of_name_eq hother hoption hname]

/-- The strings that the function abbreviates are those that the table abbreviates. -/
theorem mem_tokens_optionTable : string ∈ scope.optionTable.tokens ↔
    string ∈ ((claim [] scope.knownOptions).flatMap (·.2)).filter (OptionKind.of · != .short) := by
  have hclaimed : string ∈ (claim [] scope.knownOptions).flatMap (·.2) ↔
      ∃ declared, scope.owner? string = some declared := by
    rw [List.mem_flatMap]
    constructor
    · rintro ⟨⟨declared, strings⟩, hmem, hstring⟩
      exact ⟨declared, (exists_mem_claim.mp ⟨strings, hmem, hstring⟩).2⟩
    · rintro ⟨declared, howner⟩
      obtain ⟨strings, hmem, hstring⟩ :=
        exists_mem_claim.mpr ⟨List.not_mem_nil, howner⟩
      exact ⟨(declared, strings), hmem, hstring⟩
  rw [OptionTable.mem_tokens, List.mem_filter, bne_iff_ne, hclaimed, Scope.named?_optionTable]
  simp only [Option.map_eq_some_iff]
  constructor
  · rintro ⟨⟨_, declared, howner, -⟩, hkind⟩
    exact ⟨⟨declared, howner⟩, hkind⟩
  · rintro ⟨⟨declared, howner⟩, hkind⟩
    exact ⟨⟨_, declared, howner, rfl⟩, hkind⟩

/-- The words of an option are those that stand for its long and old-style strings. -/
theorem mem_words (hoption : option ∈ scopedOptions scope) : word ∈ option.words ↔
    ∃ token ∈ option.strings, OptionKind.of token ≠ .short ∧
      Spellings.Spells scope.optionTable.tokens minOptionBeginning scope.abbreviateOptions word
        token := by
  rw [(words_of_mem_nameClaims hoption).1, spelledWords]
  simp only [List.mem_flatMap, List.mem_filter, bne_iff_ne, and_assoc]
  refine exists_congr fun token => and_congr_right fun htoken => and_congr_right fun hkind => ?_
  have hmem : token ∈ scope.optionTable.tokens :=
    OptionTable.mem_tokens.mpr ⟨⟨_, by
      rw [Scope.named?_optionTable, owner?_of_mem_strings hoption htoken]
      rfl⟩, hkind⟩
  obtain ⟨place, hplace⟩ := Spellings.exists_idxOf? (mem_tokens_optionTable.mp hmem)
  rw [hplace]
  exact (Spellings.mem_wordsOf_ofTokens hplace).trans
    (Spellings.Spells.congr fun _ => mem_tokens_optionTable.symm)

/-- The letters of an option are those of its short strings. -/
theorem mem_letters (hoption : option ∈ scopedOptions scope) : letter ∈ option.letters ↔
    String.ofList ['-', letter] ∈ option.strings ∧
      OptionKind.of (String.ofList ['-', letter]) = .short := by
  rw [(words_of_mem_nameClaims hoption).2, shortLetters]
  simp only [List.mem_filterMap, List.mem_filter, beq_iff_eq]
  constructor
  · rintro ⟨string, ⟨hstring, hkind⟩, hletter⟩
    have hdeclared := (Scope.mem_of_owner? (owner?_of_mem_strings hoption hstring)).2
    obtain ⟨first, hchars⟩ := CommandOption.eq_of_short hdeclared hkind
    rw [hchars] at hletter
    obtain rfl : first = letter := by simpa using hletter
    rw [← hchars, String.ofList_toList]
    exact ⟨hstring, hkind⟩
  · rintro ⟨hstring, hkind⟩
    exact ⟨_, ⟨hstring, hkind⟩, by simp⟩

end ShellCompletion.Bash
