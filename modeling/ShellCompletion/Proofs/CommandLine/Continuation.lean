import Mathlib.Data.List.Induction
import ShellCompletion.Proofs.CommandLine.Places
import ShellCompletion.Proofs.CommandLine.Table

/-!
# Reading on

A command line is read from left to right, and reading can be continued after any word. What
has been found so far tells what the next word is read as: the value of the last option if
that has to have one and has none yet, a positional word if the options have ended, and
anything otherwise.
-/

namespace ShellCompletion

namespace ParsedLine

variable {line more : ParsedLine} {word : String}

/-- What was found on a line and after it. -/
def append (line more : ParsedLine) : ParsedLine :=
  ⟨line.positionals ++ more.positionals, line.occurrences ++ more.occurrences⟩

/-- Nothing follows a line. -/
@[simp] theorem append_empty (line : ParsedLine) : line.append {} = line := by
  simp [append]

/-- A positional word comes after everything found before. -/
theorem append_addPositional (line more : ParsedLine) (word : String) :
    line.append (more.addPositional word) = (line.append more).addPositional word := by
  simp [append, addPositional]

/-- Options come after everything found before. -/
theorem append_addOptions (line more : ParsedLine) (found : List Occurrence) :
    line.append (more.addOptions found) = (line.append more).addOptions found := by
  simp [append, addOptions]

/-- A value goes to the last option. -/
theorem giveValue_of_occurrences {earlier : List Occurrence} {last : Occurrence}
    (hlast : line.occurrences = earlier ++ [last]) : line.giveValue word =
      { line with occurrences := earlier ++ [{ last with value := some word }] } := by
  have hreverse : line.occurrences.reverse = last :: earlier.reverse := by
    rw [hlast, List.reverse_append]
    rfl
  unfold giveValue
  rw [hreverse]
  simp

/-- If options follow a line, a value goes to the last one of these. -/
theorem append_giveValue (line : ParsedLine) (hmore : more.occurrences ≠ []) (word : String) :
    line.append (more.giveValue word) = (line.append more).giveValue word := by
  have hlast := (List.dropLast_append_getLast hmore).symm
  have happend : (line.append more).occurrences =
      (line.occurrences ++ more.occurrences.dropLast) ++ [more.occurrences.getLast hmore] := by
    rw [List.append_assoc, ← hlast]
    rfl
  rw [giveValue_of_occurrences hlast, giveValue_of_occurrences happend]
  simp [append]

end ParsedLine

namespace OptionTable

variable {table : OptionTable} {entry : OptionEntry} {reader : LineReader} {found : List Occurrence}
  {words more : List String} {word value : String}

/-! ## Options that have no value yet -/

/-- Whether an option string is that of an option that has to have a value. -/
def Requires (table : OptionTable) (string : String) : Prop :=
  ∃ entry ∈ table.named? string, entry.arity = .required

instance (table : OptionTable) (string : String) : Decidable (table.Requires string) :=
  inferInstanceAs (Decidable (∃ entry ∈ table.named? string, _))

/-- Whether the last of the options found has to have a value and has none. -/
def Unanswered (table : OptionTable) (found : List Occurrence) : Prop :=
  ∃ last ∈ found.getLast?, last.value = none ∧ table.Requires last.option

instance (table : OptionTable) (found : List Occurrence) : Decidable (table.Unanswered found) :=
  inferInstanceAs (Decidable (∃ last ∈ found.getLast?, _))

/-- Nothing is missing where no option was found. -/
theorem not_unanswered_nil (table : OptionTable) : ¬ table.Unanswered [] := by
  rintro ⟨last, hlast, -⟩
  cases hlast

/-- Whether something is missing depends on the option found last. -/
theorem unanswered_append_singleton (found : List Occurrence) {last : Occurrence} :
    table.Unanswered (found ++ [last]) ↔ last.value = none ∧ table.Requires last.option := by
  unfold Unanswered
  rw [List.getLast?_concat]
  constructor
  · rintro ⟨other, hother, hmissing⟩
    cases hother
    exact hmissing
  · intro hmissing
    exact ⟨last, rfl, hmissing⟩

/-- Something is missing from a single option if it has to have a value and has none. -/
theorem unanswered_singleton {last : Occurrence} :
    table.Unanswered [last] ↔ last.value = none ∧ table.Requires last.option :=
  unanswered_append_singleton []

/-- Options found before others do not matter. -/
theorem unanswered_append (earlier : List Occurrence) (hfound : found ≠ []) :
    table.Unanswered (earlier ++ found) ↔ table.Unanswered found := by
  rw [← List.dropLast_append_getLast hfound, ← List.append_assoc, unanswered_append_singleton,
    unanswered_append_singleton]

/-- An option has to have a value if the arity of its entry says so. -/
theorem requires_iff (hnamed : table.named? entry.option = some entry) :
    table.Requires entry.option ↔ entry.arity = .required := by
  unfold Requires
  rw [hnamed]
  simp

/-- The option of an entry waits for a value if it has to have one and none is attached. -/
theorem waits_readEntry (hnamed : table.named? entry.option = some entry)
    (attached : Option String) : (readEntry entry attached).waits = true ↔
      table.Unanswered (readEntry entry attached).found := by
  have hrequires := requires_iff hnamed
  unfold readEntry
  cases harity : entry.arity with
  | absent => simp [unanswered_singleton, hrequires, harity]
  | optional => simp [unanswered_singleton, hrequires, harity]
  | required => simp [unanswered_singleton, hrequires, harity]

/-- A stack waits for a value if its last option has to have one and nothing follows it. -/
theorem waits_readStack (table : OptionTable) (letters : List Char) :
    (table.readStack letters).waits = true ↔ table.Unanswered (table.readStack letters).found := by
  induction letters with
  | nil => simp [readStack, not_unanswered_nil]
  | cons letter rest ih =>
    unfold readStack
    cases hnamed : table.namedOf? .short (String.ofList ['-', letter]) with
    | none => exact ih
    | some entry =>
      have hentry := named?_of_namedOf? hnamed
      have hrequires := requires_iff hentry
      cases harity : entry.arity with
      | absent =>
        -- Only the options after a flag can wait.
        simp only [harity]
        rw [ih]
        by_cases hmore : (table.readStack rest).found = []
        · simp [hmore, not_unanswered_nil, unanswered_singleton, hrequires, harity]
        · exact (unanswered_append [⟨entry.option, none⟩] hmore).symm
      | optional => simp [unanswered_singleton, hrequires, harity]
      | required => simp [unanswered_singleton, hrequires, harity]

/-- A word waits for a value if the last option in it has to have one and has none. -/
theorem waits_readOptionWord (table : OptionTable) (word : String) :
    (table.readOptionWord word).waits = true ↔
      table.Unanswered (table.readOptionWord word).found := by
  unfold readOptionWord
  simp only
  split
  · split
    · rename_i entry hlookup
      exact waits_readEntry (named?_of_lookup? hlookup) _
    · simp [not_unanswered_nil]
  · split
    · rename_i entry hlookup
      have hentry : table.named? entry.option = some entry := by
        split at hlookup
        · exact named?_of_lookup? hlookup
        · cases hlookup
      exact waits_readEntry hentry _
    · exact table.waits_readStack _

/-! ## What the next word is read as -/

/-- A word keeps that the next word is read as a value exactly if the last option is missing
one. -/
theorem expecting_step_eq_value (word : String)
    (hreader : reader.expecting = .value ↔ table.Unanswered reader.line.occurrences) :
    (table.step reader word).expecting = .value ↔
      table.Unanswered (table.step reader word).line.occurrences := by
  unfold step
  cases hexpecting : reader.expecting with
  | value =>
    obtain ⟨last, hlast, -⟩ := hreader.mp hexpecting
    obtain ⟨earlier, hoccurrences⟩ := List.getLast?_eq_some_iff.mp hlast
    simp [ParsedLine.giveValue_of_occurrences hoccurrences, unanswered_append_singleton]
  | positional =>
    have hanswered : ¬ table.Unanswered reader.line.occurrences := by
      rw [← hreader, hexpecting]
      nofun
    simp [ParsedLine.addPositional, hanswered]
  | anything =>
    have hanswered : ¬ table.Unanswered reader.line.occurrences := by
      rw [← hreader, hexpecting]
      nofun
    by_cases hplain : isPlainWord word = true
    · simp [hplain, ParsedLine.addPositional, hanswered]
    · by_cases hend : word = "--"
      · simp [hend, show isPlainWord "--" = false by decide, hanswered]
      · have hwaits := table.waits_readOptionWord word
        simp only [hplain, hend, beq_iff_eq, Bool.false_eq_true, ↓reduceIte,
          ParsedLine.addOptions]
        by_cases hnone : (table.readOptionWord word).found = []
        · have hsilent : (table.readOptionWord word).waits = false := by
            rw [← Bool.not_eq_true, hwaits, hnone]
            exact table.not_unanswered_nil
          simp [hnone, hsilent, hanswered]
        · rw [unanswered_append _ hnone, ← hwaits]
          cases (table.readOptionWord word).waits <;> simp

/-- After the words of a line, the next word is read as a value exactly if the last option is
missing one. -/
theorem expecting_eq_value (table : OptionTable) (words : List String) :
    (table.readerAfter words).expecting = .value ↔
      table.Unanswered (table.parseLine words).occurrences := by
  induction words using List.reverseRecOn with
  | nil => simp [readerAfter, parseLine, not_unanswered_nil]
  | append_singleton words word ih =>
    have hword : table.readerAfter (words ++ [word]) = table.step (table.readerAfter words) word :=
      table.readerAfter_append words [word]
    change _ ↔ table.Unanswered (table.readerAfter (words ++ [word])).line.occurrences
    rw [hword]
    exact expecting_step_eq_value word ih

/-- Whether one of the words ends the options: two dashes which are not the value of an option
before them. -/
def EndsOptions (table : OptionTable) (words : List String) : Prop :=
  ∃ before after, words = before ++ "--" :: after ∧
    ¬ table.Unanswered (table.parseLine before).occurrences

/-- The last word ends the options if they have not ended before. -/
theorem endsOptions_append_singleton : table.EndsOptions (words ++ [word]) ↔
    table.EndsOptions words ∨
      word = "--" ∧ ¬ table.Unanswered (table.parseLine words).occurrences := by
  unfold EndsOptions
  constructor
  · rintro ⟨before, after, hwords, hanswered⟩
    rcases List.eq_nil_or_concat after with rfl | ⟨front, last, rfl⟩
    · obtain ⟨rfl, hword⟩ := List.append_inj' hwords rfl
      exact .inr ⟨List.singleton_inj.mp hword, hanswered⟩
    · have hfront : words ++ [word] = (before ++ "--" :: front) ++ [last] := by simpa using hwords
      obtain ⟨rfl, -⟩ := List.append_inj' hfront rfl
      exact .inl ⟨before, front, rfl, hanswered⟩
  · rintro (⟨before, after, rfl, hanswered⟩ | ⟨rfl, hanswered⟩)
    · exact ⟨before, after ++ [word], by simp, hanswered⟩
    · exact ⟨words, [], rfl, hanswered⟩

/-- After the words of a line, the next word is positional whatever it looks like exactly if a
word has ended the options. -/
theorem expecting_eq_positional (table : OptionTable) (words : List String) :
    (table.readerAfter words).expecting = .positional ↔ table.EndsOptions words := by
  induction words using List.reverseRecOn with
  | nil => simp [readerAfter, EndsOptions]
  | append_singleton words word ih =>
    rw [readerAfter_append, List.foldl_cons, List.foldl_nil, endsOptions_append_singleton, ← ih,
      ← expecting_eq_value, expecting_step]
    cases hexpecting : (table.readerAfter words).expecting with
    | value => simp
    | positional => simp
    | anything =>
      by_cases hend : word = "--"
      · simp [hend, show isPlainWord "--" = false by decide]
      · by_cases hplain : isPlainWord word = true
        · simp [hplain, hend]
        · cases table.waits word <;> simp [hplain, hend]

/-- After the words of a line, an option can be read exactly if the options have not ended and
none of them waits for its value. -/
theorem expecting_eq_anything (table : OptionTable) (words : List String) :
    (table.readerAfter words).expecting = .anything ↔
      ¬ table.EndsOptions words ∧ ¬ table.Unanswered (table.parseLine words).occurrences := by
  rw [← expecting_eq_positional, ← expecting_eq_value]
  cases (table.readerAfter words).expecting <;> simp

instance (table : OptionTable) (words : List String) : Decidable (table.EndsOptions words) :=
  decidable_of_iff _ (table.expecting_eq_positional words)

/-! ## Reading more words -/

/-- What was found before does not matter to a word, unless the word is the value of an option
that was found there. -/
theorem step_append (line : ParsedLine) (word : String)
    (hvalue : reader.expecting = .value → reader.line.occurrences ≠ []) :
    table.step { reader with line := line.append reader.line } word =
      { table.step reader word with line := line.append (table.step reader word).line } := by
  unfold step
  cases hexpecting : reader.expecting with
  | value => simp [ParsedLine.append_giveValue line (hvalue hexpecting)]
  | positional => simp [ParsedLine.append_addPositional]
  | anything =>
    by_cases hplain : isPlainWord word = true
    · simp [hplain, ParsedLine.append_addPositional]
    · by_cases hend : word = "--"
      · simp [hend, show isPlainWord "--" = false by decide]
      · simp [hplain, hend, ParsedLine.append_addOptions]

/-- Words are read after others as they are on a line of their own, if the next word can be
anything. -/
theorem foldl_anything (table : OptionTable) (line : ParsedLine) (words : List String) :
    words.foldl table.step ⟨line, .anything⟩ =
      ⟨line.append (table.readerAfter words).line, (table.readerAfter words).expecting⟩ := by
  induction words using List.reverseRecOn with
  | nil => simp [readerAfter]
  | append_singleton words word ih =>
    have hvalue : (table.readerAfter words).expecting = .value →
        (table.readerAfter words).line.occurrences ≠ [] := by
      intro hexpecting hnone
      have hmissing := (table.expecting_eq_value words).mp hexpecting
      change table.Unanswered (table.readerAfter words).line.occurrences at hmissing
      rw [hnone] at hmissing
      exact table.not_unanswered_nil hmissing
    rw [readerAfter_append, List.foldl_append, ih]
    exact step_append line word hvalue

/-- If anything can follow some words, the words after them are read as on a line of their own. -/
theorem parseLine_append_of_anything {line : ParsedLine}
    (hread : table.readerAfter words = ⟨line, .anything⟩) (more : List String) :
    table.parseLine (words ++ more) = line.append (table.parseLine more) := by
  change (table.readerAfter (words ++ more)).line = _
  rw [readerAfter_append, hread, foldl_anything]
  rfl

/-- Words after the end of the options are positional. -/
theorem foldl_positional (table : OptionTable) (line : ParsedLine) (words : List String) :
    words.foldl table.step ⟨line, .positional⟩ = ⟨line.append ⟨words, []⟩, .positional⟩ := by
  induction words generalizing line with
  | nil => simp [ParsedLine.append]
  | cons word rest ih =>
    have hword : table.step ⟨line, .positional⟩ word =
        ⟨line.addPositional word, .positional⟩ := rfl
    rw [List.foldl_cons, hword, ih]
    simp [ParsedLine.append, ParsedLine.addPositional]

/-- Reading can be continued after any words. If these have ended the options, all further
words are positional. If otherwise their last option has to have a value and has none, it gets
the next word, and the line goes on behind that as one of its own. In all other cases it goes
on as one of its own with the next word. -/
theorem parseLine_append (table : OptionTable) (words more : List String) :
    let line := table.parseLine words
    (table.EndsOptions words → table.parseLine (words ++ more) =
      { line with positionals := line.positionals ++ more }) ∧
    (¬ table.EndsOptions words → table.Unanswered line.occurrences →
      ∀ value rest, more = value :: rest → table.parseLine (words ++ more) =
        (line.giveValue value).append (table.parseLine rest)) ∧
    (¬ table.EndsOptions words → ¬ (table.Unanswered line.occurrences ∧ more ≠ []) →
      table.parseLine (words ++ more) = line.append (table.parseLine more)) := by
  have hread : table.parseLine (words ++ more) =
      (more.foldl table.step (table.readerAfter words)).line :=
    congrArg LineReader.line (table.readerAfter_append words more)
  have hline : table.readerAfter words =
      ⟨table.parseLine words, (table.readerAfter words).expecting⟩ := rfl
  refine ⟨fun hends => ?_, fun hends hmissing value rest hmore => ?_, fun hends hsettled => ?_⟩
  · rw [hread, hline, (table.expecting_eq_positional words).mpr hends, foldl_positional]
    simp [ParsedLine.append]
  · rw [hread, hline, (table.expecting_eq_value words).mpr hmissing, hmore, List.foldl_cons]
    exact congrArg LineReader.line (table.foldl_anything _ rest)
  · by_cases hmore : more = []
    · subst hmore
      rw [List.append_nil]
      exact (ParsedLine.append_empty _).symm
    · have hanything : (table.readerAfter words).expecting = .anything := by
        cases hexpecting : (table.readerAfter words).expecting with
        | anything => rfl
        | value => exact absurd ⟨(table.expecting_eq_value words).mp hexpecting, hmore⟩ hsettled
        | positional => exact absurd ((table.expecting_eq_positional words).mp hexpecting) hends
      rw [hread, hline, hanything]
      exact congrArg LineReader.line (table.foldl_anything _ more)

/-- After the end of the options, after an option that has to have a value, and after a word,
reading goes on in the three ways. -/
theorem parseLine_append_output :
    let table : OptionTable := { entries := [⟨"-o", .required⟩] }
    table.parseLine (["--"] ++ ["-o"]) = { positionals := ["-o"] } ∧
      table.parseLine (["-o"] ++ ["--", "-o"]) =
        { occurrences := [⟨"-o", some "--"⟩, ⟨"-o", none⟩] } ∧
      table.parseLine (["-"] ++ ["-o"]) =
        { positionals := ["-"], occurrences := [⟨"-o", none⟩] } := by
  let table : OptionTable := { entries := [⟨"-o", .required⟩] }
  refine ⟨?_, ?_, ?_⟩
  · exact (table.parseLine_append ["--"] ["-o"]).1 (by decide +kernel)
  · exact ((table.parseLine_append ["-o"] ["--", "-o"]).2.1 (by decide +kernel) (by decide +kernel)
      "--" ["-o"] rfl).trans (by decide +kernel)
  · exact ((table.parseLine_append ["-"] ["-o"]).2.2 (by decide +kernel) (by decide +kernel)).trans
      (by decide +kernel)

end OptionTable
end ShellCompletion
