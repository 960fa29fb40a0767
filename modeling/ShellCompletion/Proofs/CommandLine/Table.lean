import ShellCompletion.CommandLine.Table
import ShellCompletion.Proofs.Spellings.Tokens

/-!
# Looking up options in a table

An option string belongs to the first option that has it. A word finds the entry of the
string that it stands for, if the entry is of the wanted kind.
-/

namespace ShellCompletion.OptionTable

variable {table : OptionTable} {entries : List OptionEntry} {entry : OptionEntry}
  {string word : String} {enabled : Bool} {kind : OptionKind}

/-- The entry found for a string has the string. -/
theorem option_of_named? (hnamed : table.named? string = some entry) : entry.option = string := by
  have hsame := List.find?_some hnamed
  simpa using hsame

/-- Keeping the first of items that are alike does not change what is found, if the test holds of
an earlier item where it holds of a later one that is like it. -/
theorem find?_foldl_of_alike {α : Type} (alike : α → α → Bool) {test : α → Bool}
    {list kept : List α} (halike : ∀ first ∈ kept ++ list, ∀ later ∈ list,
      alike first later = true → test later = true → test first = true) :
    (list.foldl (fun kept item =>
        if kept.any (alike · item) then kept else kept ++ [item]) kept).find? test =
      (kept ++ list).find? test := by
  induction list generalizing kept with
  | nil => simp
  | cons item rest ih =>
    rw [List.foldl_cons]
    split
    · rename_i hthere
      obtain ⟨other, hother, hsame⟩ := List.any_eq_true.mp hthere
      rw [ih fun first hfirst later hlater => halike first (by
        rcases List.mem_append.mp hfirst with h | h <;> simp [h]) later (by simp [hlater])]
      rw [List.find?_append, List.find?_append, List.find?_cons]
      split
      · rename_i htest
        have hkept := halike other (by simp [hother]) item List.mem_cons_self hsame htest
        have hsome : (kept.find? test).isSome := List.find?_isSome.mpr ⟨other, hother, hkept⟩
        obtain ⟨found, hfound⟩ := Option.isSome_iff_exists.mp hsome
        rw [hfound]
        rfl
      · rfl
    · rw [ih fun first hfirst later hlater =>
          halike first (by simpa using hfirst) later (by simp [hlater]),
        List.append_assoc, List.singleton_append]

/-- The first of several entries for a string counts. -/
theorem named?_ofEntries (entries : List OptionEntry) (string : String) :
    (ofEntries entries).named? string = entries.find? (·.option == string) := by
  let alike (kept entry : OptionEntry) : Bool := kept.option == entry.option
  change ((entries.foldl insert []).find? _) = _
  refine find?_foldl_of_alike alike fun first _ later _ hsame hlater => ?_
  rw [beq_iff_eq.mp hsame]
  exact hlater

/-- An option has an entry for each of its strings. -/
theorem find?_entriesOf (option : CommandOption) (string : String) :
    (entriesOf option).find? (·.option == string) =
      if option.answersTo string then some ⟨string, option.arity⟩ else none := by
  rw [entriesOf, CommandOption.answersTo]
  split
  · rename_i hanswers
    have hsome : ((option.strings.map (⟨·, option.arity⟩ : String → OptionEntry)).find?
        (·.option == string)).isSome :=
      List.find?_isSome.mpr ⟨⟨string, option.arity⟩,
        List.mem_map_of_mem (List.contains_iff_mem.mp hanswers), beq_self_eq_true string⟩
    obtain ⟨found, hfound⟩ := Option.isSome_iff_exists.mp hsome
    obtain ⟨other, -, rfl⟩ := List.mem_map.mp (List.mem_of_find?_eq_some hfound)
    rw [hfound, show other = string from beq_iff_eq.mp (List.find?_some hfound :)]
  · rename_i hanswers
    refine List.find?_eq_none.mpr fun other hother hsame => hanswers ?_
    obtain ⟨_, hmem, rfl⟩ := List.mem_map.mp hother
    exact List.contains_iff_mem.mpr (beq_iff_eq.mp hsame ▸ hmem)

/-- The entry of a string is that of the first option with the string. -/
theorem named?_ofOptions (options : List CommandOption) (string : String) :
    (ofOptions options).named? string =
      (options.find? (·.answersTo string)).map fun option => ⟨string, option.arity⟩ := by
  rw [ofOptions, named?_ofEntries]
  induction options with
  | nil => rfl
  | cons option rest ih =>
    rw [List.flatMap_cons, List.find?_append, ih, find?_entriesOf, List.find?_cons]
    cases option.answersTo string <;> rfl

/-- The strings of a table that may be abbreviated. -/
def tokens (table : OptionTable) : List String :=
  (table.entries.map (·.option)).filter (OptionKind.of · != .short)

/-- A string may be abbreviated if it has an entry and is not short. -/
theorem mem_tokens : string ∈ table.tokens ↔
    (∃ entry, table.named? string = some entry) ∧ OptionKind.of string ≠ .short := by
  rw [tokens, List.mem_filter, bne_iff_ne, List.mem_map, ← Option.isSome_iff_exists, named?,
    List.find?_isSome]
  simp only [beq_iff_eq]

/-- The entry found for a kind is that of the string, if it is of the kind. -/
theorem namedOf?_eq_some : table.namedOf? kind string = some entry ↔
    table.named? string = some entry ∧ OptionKind.of entry.option = kind := by
  rw [namedOf?, Option.filter_eq_some_iff, beq_iff_eq]

/-- The entry found for a kind has the string. -/
theorem option_of_namedOf? (hnamed : table.namedOf? kind string = some entry) :
    entry.option = string :=
  option_of_named? (namedOf?_eq_some.mp hnamed).1

/-- A string with an entry of another kind than short may be abbreviated. -/
theorem mem_tokens_of_namedOf? (hkind : kind ≠ .short)
    (hnamed : table.namedOf? kind string = some entry) : string ∈ table.tokens := by
  obtain ⟨hentry, rfl⟩ := namedOf?_eq_some.mp hnamed
  rw [option_of_namedOf? hnamed] at hkind
  exact mem_tokens.mpr ⟨⟨entry, hentry⟩, hkind⟩

/-- The entry found for a kind is the one of its string. -/
theorem named?_of_namedOf? (hnamed : table.namedOf? kind string = some entry) :
    table.named? entry.option = some entry := by
  obtain ⟨hentry, -⟩ := namedOf?_eq_some.mp hnamed
  rwa [option_of_named? hentry]

/-- The entry that a word finds is the one of its string. -/
theorem named?_of_lookup? (hlookup : table.lookup? kind word = some entry) :
    table.named? entry.option = some entry := by
  rw [lookup?] at hlookup
  split at hlookup
  · rename_i hnamed
    cases hlookup
    exact named?_of_namedOf? hnamed
  · obtain ⟨spellings, -, hspellings⟩ := Option.bind_eq_some_iff.mp hlookup
    obtain ⟨full, -, hnamed⟩ := Option.bind_eq_some_iff.mp hspellings
    exact named?_of_namedOf? hnamed

/-- A word is expanded to a string that begins with it. -/
theorem prefix_of_expand? {spellings : Spellings} {full : String}
    (hexpand : spellings.expand? word = some full) : word.toList <+: full.toList := by
  obtain ⟨place, -, hfull⟩ := Option.bind_eq_some_iff.mp hexpand
  dsimp only at hfull
  split at hfull
  · cases hfull
    exact List.prefix_rfl
  · have hbegins := List.find?_some hfull
    exact Text.beginsWith_iff.mp (by simpa using hbegins)

/-- A word finds an entry whose string begins with it. -/
theorem prefix_of_lookup? (hlookup : table.lookup? kind word = some entry) :
    word.toList <+: entry.option.toList := by
  rw [lookup?] at hlookup
  split at hlookup
  · rename_i hnamed
    cases hlookup
    exact (option_of_namedOf? hnamed).symm ▸ List.prefix_rfl
  · obtain ⟨spellings, -, hspellings⟩ := Option.bind_eq_some_iff.mp hlookup
    obtain ⟨full, hexpand, hnamed⟩ := Option.bind_eq_some_iff.mp hspellings
    rw [option_of_namedOf? hnamed]
    exact prefix_of_expand? hexpand

/-- A word finds the entry of the long or old-style string that it stands for. -/
theorem lookup?_withAbbreviations (hkind : kind ≠ .short) :
    (table.withAbbreviations enabled).lookup? kind word = some entry ↔
      table.namedOf? kind entry.option = some entry ∧
        Spellings.Spells table.tokens minOptionBeginning enabled word entry.option := by
  have hnamed : (table.withAbbreviations enabled).namedOf? kind = table.namedOf? kind := rfl
  rw [lookup?, hnamed]
  cases hexact : table.namedOf? kind word with
  | some found =>
    rw [Option.some.injEq]
    constructor
    · rintro rfl
      rw [option_of_namedOf? hexact]
      exact ⟨hexact, .inl rfl⟩
    · rintro ⟨hentry, hspells⟩
      have hsame := Spellings.Spells.unique (mem_tokens_of_namedOf? hkind hexact)
        (mem_tokens_of_namedOf? hkind hentry) (.inl rfl) hspells
      rw [← hsame, hexact] at hentry
      exact Option.some.inj hentry
  | none =>
    cases enabled with
    | false =>
      refine iff_of_false nofun ?_
      rintro ⟨hentry, hword | hword⟩
      · rw [← hword, hexact] at hentry
        cases hentry
      · cases hword.1
    | true =>
      change ((Spellings.ofTokens table.tokens minOptionBeginning true).expand? word).bind
        (table.namedOf? kind) = some entry ↔ _
      simp only [Option.bind_eq_some_iff, Spellings.expand?_ofTokens]
      constructor
      · rintro ⟨full, ⟨-, hspells⟩, hentry⟩
        obtain rfl := option_of_namedOf? hentry
        exact ⟨hentry, hspells⟩
      · rintro ⟨hentry, hspells⟩
        exact ⟨entry.option, ⟨mem_tokens_of_namedOf? hkind hentry, hspells⟩, hentry⟩

end ShellCompletion.OptionTable
