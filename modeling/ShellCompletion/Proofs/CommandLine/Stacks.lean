import Mathlib.Data.List.Induction
import ShellCompletion.Proofs.CommandLine.Places
import ShellCompletion.Proofs.CommandLine.Table

/-!
# Options in one word

Several options can be stacked in one word. All of them but the last are options without
values, and only the last one can wait for its value.
-/

namespace ShellCompletion.OptionTable

variable {table : OptionTable} {reader : LineReader} {words : List String} {number place : Nat}

/-- Whether an option string is that of an option without values. -/
def IsFlag (table : OptionTable) (string : String) : Prop :=
  ∃ entry, table.named? string = some entry ∧ entry.arity = .absent

/-- The options found in one word. -/
structure Stacked (table : OptionTable) (options : WordOptions) : Prop where
  /-- All but the last one are options without values. -/
  flags : options.found.Pairwise fun first _ => table.IsFlag first.option
  /-- Options without values have none. -/
  absent : ∀ found ∈ options.found, table.IsFlag found.option → found.value = none
  /-- If the last one waits for its value, it has none. -/
  bare : options.waits = true →
    ∃ last, options.found.getLast? = some last ∧ last.value = none ∧ ¬ table.IsFlag last.option

/-- An option with a value is no flag. -/
theorem not_isFlag {entry : OptionEntry} (hnamed : table.named? entry.option = some entry)
    (harity : entry.arity ≠ .absent) : ¬ table.IsFlag entry.option := by
  rintro ⟨other, hother, habsent⟩
  rw [hnamed, Option.some.injEq] at hother
  exact harity (hother ▸ habsent)

/-! ## Reading one word -/

/-- No options are stacked. -/
theorem Stacked.nil : table.Stacked ⟨[], false⟩ :=
  ⟨List.Pairwise.nil, List.forall_mem_nil _, nofun⟩

/-- The option of an entry stands alone. -/
theorem stacked_readEntry {entry : OptionEntry} (hnamed : table.named? entry.option = some entry)
    (attached : Option String) : table.Stacked (readEntry entry attached) := by
  rw [readEntry]
  cases harity : entry.arity with
  | absent =>
    exact ⟨List.pairwise_singleton _ _, List.forall_mem_singleton.mpr fun _ => rfl, nofun⟩
  | optional =>
    have hflag := not_isFlag hnamed (by simp [harity])
    exact ⟨List.pairwise_singleton _ _, List.forall_mem_singleton.mpr (absurd · hflag), nofun⟩
  | required =>
    have hflag := not_isFlag hnamed (by simp [harity])
    exact ⟨List.pairwise_singleton _ _, List.forall_mem_singleton.mpr (absurd · hflag),
      fun hwaits => ⟨_, rfl, Option.isNone_iff_eq_none.mp hwaits, hflag⟩⟩

/-- Reading goes on after an option without values. -/
theorem Stacked.cons {options : WordOptions} {string : String} (hflag : table.IsFlag string)
    (hstacked : table.Stacked options) :
    table.Stacked { options with found := ⟨string, none⟩ :: options.found } where
  flags := List.pairwise_cons.mpr ⟨fun _ _ => hflag, hstacked.flags⟩
  absent := List.forall_mem_cons.mpr ⟨fun _ => rfl, hstacked.absent⟩
  bare hwaits := by
    obtain ⟨last, hlast, hvalue⟩ := hstacked.bare hwaits
    exact ⟨last, by rw [List.getLast?_cons, hlast]; rfl, hvalue⟩

/-- Stacked letters are read up to the first option with a value. -/
theorem stacked_readStack (table : OptionTable) (letters : List Char) :
    table.Stacked (table.readStack letters) := by
  induction letters with
  | nil => exact .nil
  | cons letter rest ih =>
    rw [readStack]
    split
    · exact ih
    · rename_i entry hnamed
      have hentry := named?_of_namedOf? hnamed
      have hread := stacked_readEntry hentry
        (if rest.isEmpty then none else some (String.ofList rest))
      rw [readEntry] at hread
      cases harity : entry.arity with
      | absent => exact ih.cons ⟨entry, hentry, harity⟩
      | optional =>
        rw [harity] at hread
        exact hread
      | required =>
        rw [harity] at hread
        exact hread

/-- The options in a word are stacked. -/
theorem stacked_readOptionWord (table : OptionTable) (word : String) :
    table.Stacked (table.readOptionWord word) := by
  rw [readOptionWord]
  split
  · split
    · rename_i hlookup
      exact stacked_readEntry (named?_of_lookup? hlookup) _
    · exact .nil
  · split
    · rename_i hlookup
      split at hlookup
      · exact stacked_readEntry (named?_of_lookup? hlookup) _
      · cases hlookup
    · exact table.stacked_readStack _

/-! ## Reading a line -/

/-- A word adds the strings of stacked options to those of the options found. -/
theorem exists_options_step (table : OptionTable) (reader : LineReader) (word : String) :
    ∃ strings : List String, (strings.Pairwise fun first _ => table.IsFlag first) ∧
      (table.step reader word).line.occurrences.map (·.option) =
        reader.line.occurrences.map (·.option) ++ strings := by
  have hnone : ∀ {line : ParsedLine},
      line.occurrences.map (·.option) = reader.line.occurrences.map (·.option) →
      ∃ strings : List String, (strings.Pairwise fun first _ => table.IsFlag first) ∧
        line.occurrences.map (·.option) = reader.line.occurrences.map (·.option) ++ strings :=
    fun hsame => ⟨[], List.Pairwise.nil, by rw [hsame, List.append_nil]⟩
  rw [step]
  split
  · exact hnone (reader.line.map_option_giveValue word)
  · exact hnone rfl
  · split
    · exact hnone rfl
    · split
      · exact hnone rfl
      · exact ⟨_, List.pairwise_map.mpr (table.stacked_readOptionWord word).flags,
          List.map_append⟩

/-- The strings of the options found, with their places, grow by those of the next word. -/
theorem exists_placedOptions_append (table : OptionTable) (words : List String) (word : String) :
    ∃ strings : List String, (strings.Pairwise fun first _ => table.IsFlag first) ∧
      (table.placedOptions (words ++ [word])).map (Prod.map (·.option) id) =
        (table.placedOptions words).map (Prod.map (·.option) id) ++
          strings.map (·, words.length + 1) := by
  obtain ⟨strings, hflags, hoptions⟩ := table.exists_options_step (table.readerAfter words) word
  refine ⟨strings, hflags, ?_⟩
  have hsplit : ∀ words, (table.placedOptions words).map (Prod.map (·.option) id) =
      ((table.readerAfter words).line.occurrences.map (·.option)).zip
        (table.placesFrom 1 {} words) :=
    fun words => List.zip_map_left.symm
  have hlength : ((table.readerAfter words).line.occurrences.map (·.option)).length =
      (table.placesFrom 1 {} words).length := by
    simpa [readerAfter] using (table.length_placesFrom 1 {} words).symm
  have hcount : (table.step (table.readerAfter words) word).line.occurrences.length -
      (table.readerAfter words).line.occurrences.length = strings.length := by
    have hcount := congrArg List.length hoptions
    simp only [List.length_map, List.length_append] at hcount
    omega
  have hplaces : table.placesFrom 1 {} (words ++ [word]) =
      table.placesFrom 1 {} words ++ strings.map fun _ => words.length + 1 := by
    rw [placesFrom_append, List.map_const', ← hcount, Nat.add_comm 1, placesFrom, placesFrom,
      List.append_nil]
    rfl
  rw [hsplit, hsplit, hplaces, readerAfter_append, List.foldl_cons, List.foldl_nil, hoptions,
    List.zip_append hlength, List.map_prod_left_eq_zip]

/-- Later options are in later words, or follow an option without values in the same one. -/
theorem pairwise_placedOptions (table : OptionTable) (words : List String) :
    (table.placedOptions words).Pairwise fun first second =>
      first.2 < second.2 ∨ first.2 = second.2 ∧ table.IsFlag first.1.option := by
  have hpairs : ((table.placedOptions words).map (Prod.map (·.option) id)).Pairwise
      fun first second => first.2 < second.2 ∨ first.2 = second.2 ∧ table.IsFlag first.1 := by
    induction words using List.reverseRecOn with
    | nil => exact List.Pairwise.nil
    | append_singleton words word ih =>
      obtain ⟨strings, hflags, hoptions⟩ := table.exists_placedOptions_append words word
      rw [hoptions]
      refine List.pairwise_append.mpr ⟨ih, ?_, fun first hfirst second hsecond => .inl ?_⟩
      · exact List.pairwise_map.mpr (hflags.imp fun hflag => .inr ⟨rfl, hflag⟩)
      · obtain ⟨found, hfound, rfl⟩ := List.mem_map.mp hfirst
        obtain ⟨string, -, rfl⟩ := List.mem_map.mp hsecond
        have hplace := lt_of_mem_placesFrom (List.of_mem_zip hfound).2
        rwa [Nat.add_comm] at hplace
  exact List.pairwise_map.mp hpairs

/-- The last of several options is in the last of their words. -/
theorem le_of_lastIn {strings : List String} {last found : Occurrence × Nat}
    (hlast : lastIn (table.placedOptions words) strings = some last)
    (hfound : found ∈ table.placedOptions words) (hmem : found.1.option ∈ strings) :
    found.2 ≤ last.2 := by
  rcases eq_or_of_lastIn (table.pairwise_placedOptions words) hlast hfound hmem with
    rfl | hlt | ⟨heq, -⟩
  · exact Nat.le_refl _
  · exact Nat.le_of_lt hlt
  · exact Nat.le_of_eq heq

/-- Options without values have none, and none of them waits for its value. -/
structure Sound (table : OptionTable) (reader : LineReader) : Prop where
  /-- Options without values have none. -/
  absent : ∀ found ∈ reader.line.occurrences, table.IsFlag found.option → found.value = none
  /-- The option that waits for its value is the last one. -/
  waiting : reader.expecting = .value → ∃ last, reader.line.occurrences.getLast? = some last ∧
    last.value = none ∧ ¬ table.IsFlag last.option

/-- What a reader found is sound after the next word. -/
theorem Sound.step (hsound : table.Sound reader) (word : String) :
    table.Sound (table.step reader word) := by
  rw [OptionTable.step]
  split
  · rename_i hexpecting
    obtain ⟨last, hlast, -, hflag⟩ := hsound.waiting hexpecting
    have hgiven : (reader.line.giveValue word).occurrences =
        reader.line.occurrences.dropLast ++ [{ last with value := some word }] := by
      rw [ParsedLine.giveValue, ← List.dropLast_append_getLast? last hlast]
      simp
    refine ⟨?_, fun hvalue => by cases hvalue⟩
    rw [hgiven]
    refine List.forall_mem_append.mpr ⟨fun found hfound => ?_, ?_⟩
    · exact hsound.absent found (List.dropLast_subset _ hfound)
    · exact List.forall_mem_singleton.mpr fun hflag' => absurd hflag' hflag
  · rename_i hexpecting
    exact ⟨hsound.absent, by simp [hexpecting]⟩
  · rename_i hexpecting
    split
    · exact ⟨hsound.absent, by simp [hexpecting]⟩
    · split
      · exact ⟨hsound.absent, by simp⟩
      · have hstacked := table.stacked_readOptionWord word
        refine ⟨List.forall_mem_append.mpr ⟨hsound.absent, hstacked.absent⟩, fun hvalue => ?_⟩
        have hwaits : (table.readOptionWord word).waits = true := by
          by_contra hwaits
          simp [hwaits] at hvalue
        obtain ⟨last, hlast, hlast'⟩ := hstacked.bare hwaits
        exact ⟨last, by simp [ParsedLine.addOptions, List.getLast?_append, hlast], hlast'⟩

/-- What is found on a line is sound. -/
theorem sound_readerAfter (table : OptionTable) (words : List String) :
    table.Sound (table.readerAfter words) := by
  induction words using List.reverseRecOn with
  | nil => exact ⟨List.forall_mem_nil _, nofun⟩
  | append_singleton words word ih =>
    rw [readerAfter_append]
    exact ih.step word

/-- An option whose value is being typed has none. -/
theorem value_eq_none_of_expecting (hvalue : (table.readerAfter words).expecting = .value)
    {last : Occurrence × Nat} (hlast : (table.placedOptions words).getLast? = some last) :
    last.1.value = none := by
  obtain ⟨typed, htyped, hnone, -⟩ := (table.sound_readerAfter words).waiting hvalue
  have hoccurrences : (table.readerAfter words).line.occurrences.getLast? = some last.1 := by
    change (table.parseLine words).occurrences.getLast? = _
    rw [← map_fst_placedOptions, List.getLast?_map, hlast]
    rfl
  rw [htyped, Option.some.injEq] at hoccurrences
  exact hoccurrences ▸ hnone

/-- Options without values have none on a line. -/
theorem valueIn_eq_empty {strings : List String}
    (hflags : ∀ string ∈ strings, table.IsFlag string) :
    valueIn (table.settledOptions words) strings = "" := by
  rw [valueIn]
  cases hlast : lastIn (table.settledOptions words) strings with
  | none => rfl
  | some last =>
    obtain ⟨hsettled, hstring⟩ := mem_of_lastIn hlast
    have hplaced : last ∈ table.placedOptions words := by
      rw [settledOptions] at hsettled
      split at hsettled
      · exact List.dropLast_subset _ hsettled
      · exact hsettled
    have hoccurrence : last.1 ∈ (table.readerAfter words).line.occurrences := by
      change last.1 ∈ (table.parseLine words).occurrences
      rw [← map_fst_placedOptions]
      exact List.mem_map_of_mem hplaced
    simp [(table.sound_readerAfter words).absent last.1 hoccurrence (hflags _ hstring)]

/-- Options that have a value keep it. -/
theorem valueIn_settledOptions_of_value {strings : List String} {last : Occurrence × Nat}
    {value : String} (hlast : lastIn (table.placedOptions words) strings = some last)
    (hvalue : last.1.value = some value) :
    valueIn (table.settledOptions words) strings = value := by
  rw [valueIn_settledOptions, lastOf?_eq_lastIn (table.map_fst_placedOptions words).symm, hlast]
  · simp [hvalue]
  · intro hexpecting typed htyped hmem
    have hsame : lastIn (table.placedOptions words) strings = some typed := by
      rw [← List.dropLast_append_getLast? typed htyped, lastIn_append_singleton, if_pos hmem]
    rw [hlast, Option.some.injEq] at hsame
    rw [hsame, value_eq_none_of_expecting hexpecting htyped] at hvalue
    cases hvalue

end ShellCompletion.OptionTable
