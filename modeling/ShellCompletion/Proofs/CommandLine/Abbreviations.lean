import ShellCompletion.Proofs.CommandLine.Continuation
import ShellCompletion.Proofs.CommandLine.Names
import ShellCompletion.Proofs.CommandLine.OptionList

/-!
# Abbreviated options

Where options are read, an abbreviation of an option string can be typed for the string, with
or without a value attached to it. The command line is read the same, also if the abbreviation
looks like a stack of short options.
-/

namespace ShellCompletion.OptionTable

variable {table : OptionTable} {entry : OptionEntry} {spellings : Spellings}
  {reader : LineReader} {word name token suffix : String} {before : List String}

/-! ## Tables -/

/-- A table is one of several options or is read from an option list. Abbreviations can be
switched on and off. -/
inductive Built : OptionTable → Prop where
  /-- A table of options. -/
  | ofOptions (options : List CommandOption) : Built (ofOptions options)
  /-- A table from an option list. -/
  | parse {list : String} {table : OptionTable} (hparse : parse list = .ok table) : Built table
  /-- A table with or without abbreviations. -/
  | withAbbreviations {table : OptionTable} (hbuilt : Built table) (enabled : Bool) :
      Built (table.withAbbreviations enabled)

/-- The entries of a table that is read from a list may stand in a list. -/
theorem isListable_of_parse {list : String} (hparse : parse list = .ok table)
    (hentry : entry ∈ table.entries) : isListable entry.option = true := by
  obtain ⟨read, hread, rfl⟩ := map_eq_ok.mp hparse
  obtain ⟨item, -, hitem⟩ := (mem_mapM hread).mp (mem_of_mem_ofEntries hentry)
  rw [readItem] at hitem
  split at hitem
  · cases hitem
    assumption
  · cases hitem

/-- The entries of a table may stand in an option list. -/
theorem Built.isListable (hbuilt : table.Built) (hentry : entry ∈ table.entries) :
    isListable entry.option = true := by
  induction hbuilt with
  | ofOptions options =>
    obtain ⟨option, -, hstring⟩ := exists_of_mem_ofOptions hentry
    exact CommandOption.isListable_of_mem hstring
  | parse hparse => exact isListable_of_parse hparse hentry
  | withAbbreviations _ _ ih => exact ih hentry

/-- The option strings that can be abbreviated begin with a dash. -/
theorem Built.dashed (hbuilt : table.Built) (htoken : token ∈ table.tokens) :
    Text.beginsWith token "-" = true := by
  obtain ⟨⟨entry, hnamed⟩, -⟩ := mem_tokens.mp htoken
  have hlistable := hbuilt.isListable (List.mem_of_find?_eq_some hnamed)
  rw [option_of_named? hnamed, OptionTable.isListable] at hlistable
  simp only [Bool.and_eq_true] at hlistable
  exact hlistable.1.1

/-- The abbreviations of a table are those of its long and old-style option strings. -/
theorem Built.spellings_eq (hbuilt : table.Built) (hspellings : table.spellings = some spellings) :
    spellings = Spellings.ofTokens table.tokens minOptionBeginning true := by
  cases hbuilt with
  | ofOptions options => cases hspellings
  | parse hparse =>
    obtain ⟨_, -, rfl⟩ := map_eq_ok.mp hparse
    cases hspellings
  | withAbbreviations _ enabled =>
    cases enabled with
    | false => cases hspellings
    | true => exact (Option.some.inj hspellings).symm

/-- A table with abbreviations has them already. -/
theorem Built.withAbbreviations_eq (hbuilt : table.Built)
    (hspellings : table.spellings = some spellings) : table.withAbbreviations true = table := by
  change (⟨table.entries, some (Spellings.ofTokens table.tokens minOptionBeginning true)⟩ :
    OptionTable) = table
  rw [← hbuilt.spellings_eq hspellings, ← hspellings]

/-! ## Words -/

/-- Three or more characters of an option string, with anything attached to them, are neither a
positional word nor the end of the options. -/
theorem isPlainWord_of_prefix (hdash : Text.beginsWith token "-" = true)
    (hname : name.toList <+: token.toList) (hlength : 3 ≤ name.length) (suffix : String) :
    isPlainWord (name ++ suffix) = false ∧ (name ++ suffix == "--") = false := by
  have hbegins : Text.beginsWith (name ++ suffix) "-" = true := by
    rw [Text.beginsWith_iff, String.toList_append]
    refine (List.prefix_of_prefix_length_le (Text.beginsWith_iff.mp hdash) hname ?_).trans
      (List.prefix_append _ _)
    rw [String.length_toList]
    exact Nat.le_trans (by decide) hlength
  have hlong : 3 ≤ (name ++ suffix).length := by
    rw [String.length_append]
    omega
  have hne : ∀ {other : String}, other.length < 3 → (name ++ suffix == other) = false := by
    intro other hshort
    rw [beq_eq_false_iff_ne]
    rintro rfl
    omega
  refine ⟨?_, hne (by decide)⟩
  rw [isPlainWord, hne (by decide), hbegins]
  rfl

/-- All names of three or more characters that stand for an option string give the same, with the
same attached to them. -/
theorem exists_readOptionWord_append (hbuilt : table.Built)
    (hspellings : table.spellings = some spellings)
    (hequals : ∀ entry ∈ table.entries, '=' ∉ entry.option.toList) (htoken : token ∈ table.tokens)
    (hsuffix : suffix = "" ∨ Text.beginsWith suffix "=" = true) :
    ∃ options, ∀ name : String, 3 ≤ name.length →
      Spellings.Spells table.tokens minOptionBeginning true name token →
        table.readOptionWord (name ++ suffix) = options := by
  obtain ⟨⟨entry, hnamed⟩, hkind⟩ := mem_tokens.mp htoken
  obtain ⟨attached, hattached⟩ := exists_splitWord_append hsuffix
  refine ⟨readEntry entry attached, fun name hlength hspells => ?_⟩
  have hname : '=' ∉ name.toList := by
    have hmem := List.mem_of_find?_eq_some hnamed
    rw [← option_of_named? hnamed] at hspells
    exact fun hin => hequals entry hmem (hspells.prefix_and_length.1.subset hin)
  have hsplit := hattached name hname
  have hfst : (splitWord (name ++ suffix)).1 = name := by rw [hsplit]
  have hread := readOptionWord_of_spells hnamed hkind (hfst.symm ▸ hlength) (hfst.symm ▸ hspells)
  rwa [hbuilt.withAbbreviations_eq hspellings, hsplit] at hread

/-! ## Command lines -/

/-- Where options are read, a reader does the same for an abbreviation and for the option string
that it stands for, with the same attached to them. -/
theorem step_expand (hbuilt : table.Built) (hspellings : table.spellings = some spellings)
    (hequals : ∀ entry ∈ table.entries, '=' ∉ entry.option.toList)
    (hexpand : spellings.expand? word = some token)
    (hsuffix : suffix = "" ∨ Text.beginsWith suffix "=" = true)
    (hexpecting : reader.expecting = .anything) :
    table.step reader (word ++ suffix) = table.step reader (token ++ suffix) := by
  rw [hbuilt.spellings_eq hspellings, Spellings.expand?_ofTokens] at hexpand
  obtain ⟨htoken, hspells⟩ := hexpand
  obtain ⟨hbegins, rfl | hlength⟩ := hspells.prefix_and_length
  · rfl
  obtain ⟨options, hread⟩ := exists_readOptionWord_append hbuilt hspellings hequals htoken hsuffix
  have hstep : ∀ name : String, name.toList <+: token.toList → 3 ≤ name.length →
      Spellings.Spells table.tokens minOptionBeginning true name token →
      table.step reader (name ++ suffix) =
        ⟨reader.line.addOptions options.found, if options.waits then .value else .anything⟩ := by
    intro name hname hlength hspells
    obtain ⟨hplain, hend⟩ := isPlainWord_of_prefix (hbuilt.dashed htoken) hname hlength suffix
    simp [step, hexpecting, hplain, hend, hread name hlength hspells]
  have hlong : 3 ≤ token.length := by
    have hle := hbegins.length_le
    rw [String.length_toList, String.length_toList] at hle
    exact Nat.le_trans hlength hle
  rw [hstep word hbegins hlength hspells, hstep token List.prefix_rfl hlong (.inl rfl)]

/-- Where options are read, an abbreviation can be typed for an option string, with or without a
value attached to it: the whole command line is read the same. -/
theorem parseLine_expand (hbuilt : table.Built) (hspellings : table.spellings = some spellings)
    (hequals : ∀ entry ∈ table.entries, '=' ∉ entry.option.toList)
    (hexpand : spellings.expand? word = some token)
    (hsuffix : suffix = "" ∨ Text.beginsWith suffix "=" = true)
    (hoptions : ¬ table.EndsOptions before)
    (hanswered : ¬ table.Unanswered (table.parseLine before).occurrences) (after : List String) :
    table.parseLine (before ++ (word ++ suffix) :: after) =
      table.parseLine (before ++ (token ++ suffix) :: after) := by
  have hexpecting := (table.expecting_eq_anything before).mpr ⟨hoptions, hanswered⟩
  have hline : ∀ option, table.parseLine (before ++ option :: after) =
      (after.foldl table.step (table.step (table.readerAfter before) option)).line :=
    fun option => congrArg LineReader.line (table.readerAfter_append before (option :: after))
  rw [hline, hline, step_expand hbuilt hspellings hequals hexpand hsuffix hexpecting]

/-- A table with an old-style option whose abbreviation looks like a stack of the other two. -/
def oldStyle : OptionTable :=
  withAbbreviations ⟨[⟨"-o", .absent⟩, ⟨"-l", .absent⟩, ⟨"-old", .required⟩], none⟩ true

/-- The abbreviation is read as the old-style option, after a value of two dashes. -/
theorem parseLine_expand_oldStyle :
    let spellings := Spellings.ofTokens oldStyle.tokens minOptionBeginning true
    oldStyle.Built ∧ oldStyle.spellings = some spellings ∧
      (∀ entry ∈ oldStyle.entries, '=' ∉ entry.option.toList) ∧
      spellings.expand? "-ol" = some "-old" ∧ Text.beginsWith "=v" "=" = true ∧
      ¬ oldStyle.EndsOptions ["-old", "--"] ∧
      ¬ oldStyle.Unanswered (oldStyle.parseLine ["-old", "--"]).occurrences ∧
      oldStyle.parseLine (["-old", "--"] ++ ("-ol" ++ "=v") :: ["-ol", "x"]) =
        oldStyle.parseLine (["-old", "--"] ++ ("-old" ++ "=v") :: ["-ol", "x"]) := by
  have hparse : parse "-o,-l,-old=" =
      .ok ⟨[⟨"-o", .absent⟩, ⟨"-l", .absent⟩, ⟨"-old", .required⟩], none⟩ := rfl
  have hbuilt : oldStyle.Built := .withAbbreviations (.parse hparse) true
  have hequals : ∀ entry ∈ oldStyle.entries, '=' ∉ entry.option.toList := by decide +kernel
  have hexpand : (Spellings.ofTokens oldStyle.tokens minOptionBeginning true).expand? "-ol" =
      some "-old" := by
    refine Spellings.expand?_ofTokens.mpr ⟨by decide +kernel, .inr ⟨rfl, ?_⟩⟩
    unfold Spellings.Abbreviates
    decide +kernel
  have hoptions : ¬ oldStyle.EndsOptions ["-old", "--"] := by decide +kernel
  have hanswered : ¬ oldStyle.Unanswered (oldStyle.parseLine ["-old", "--"]).occurrences := by
    decide +kernel
  exact ⟨hbuilt, rfl, hequals, hexpand, by decide +kernel, hoptions, hanswered,
    parseLine_expand hbuilt rfl hequals hexpand (.inr (by decide +kernel)) hoptions hanswered
      ["-ol", "x"]⟩

end ShellCompletion.OptionTable
