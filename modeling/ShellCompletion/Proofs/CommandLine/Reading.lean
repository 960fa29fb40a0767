import Mathlib.Data.List.Basic
import ShellCompletion.CommandLine.Parsed

/-!
# Reading a command line

Which words are positional does not depend on the options themselves, but only on which
words make a table wait for a value. Positional words are never taken back.
-/

namespace ShellCompletion

namespace ParsedLine

/-- A positional word is added at the end. -/
@[simp] theorem positionals_addPositional (line : ParsedLine) (word : String) :
    (line.addPositional word).positionals = line.positionals ++ [word] :=
  rfl

/-- Options leave the positional words alone. -/
@[simp] theorem positionals_addOptions (line : ParsedLine) (found : List Occurrence) :
    (line.addOptions found).positionals = line.positionals :=
  rfl

/-- Values leave the positional words alone. -/
@[simp] theorem positionals_giveValue (line : ParsedLine) (word : String) :
    (line.giveValue word).positionals = line.positionals := by
  unfold giveValue
  split <;> rfl

end ParsedLine

namespace OptionTable

variable {table other : OptionTable} {reader reader' : LineReader} {word : String}
  {words : List String}

/-- Whether a word where options are still read makes the table take the next word as a
value. -/
def waits (table : OptionTable) (word : String) : Bool :=
  !isPlainWord word && word != "--" && (table.readOptionWord word).waits

/-- A word that makes a table wait is not plain, and does not end the options. -/
theorem of_waits (hwaits : table.waits word = true) :
    isPlainWord word = false ∧ (word == "--") = false ∧
      (table.readOptionWord word).waits = true := by
  simpa [waits, and_assoc] using hwaits

/-- What the next word is read as depends on the word by what makes the table wait only. -/
theorem expecting_step (table : OptionTable) (reader : LineReader) (word : String) :
    (table.step reader word).expecting = match reader.expecting with
      | .value => .anything
      | .positional => .positional
      | .anything =>
        if isPlainWord word then .anything
        else if word == "--" then .positional
        else if table.waits word then .value else .anything := by
  rw [step]
  cases hexpecting : reader.expecting with
  | value => rfl
  | positional => rfl
  | anything =>
    by_cases hplain : isPlainWord word = true
    · simp [hplain]
    · by_cases hend : word = "--"
      · simp [hend, show isPlainWord "--" = false by decide]
      · simp [hplain, hend, waits]

/-- A word is positional after the options have ended, and if it is plain where an option
could stand. -/
theorem positionals_step (table : OptionTable) (reader : LineReader) (word : String) :
    (table.step reader word).line.positionals = reader.line.positionals ++
      match reader.expecting with
      | .value => []
      | .positional => [word]
      | .anything => if isPlainWord word then [word] else [] := by
  rw [step]
  cases hexpecting : reader.expecting with
  | value => simp
  | positional => rfl
  | anything =>
    by_cases hplain : isPlainWord word = true
    · simp [hplain]
    · by_cases hend : word = "--"
      · simp [hend, show isPlainWord "--" = false by decide]
      · simp [hplain, hend]

/-- Two readers have found the same positional words and take the next word alike. -/
structure Agree (reader reader' : LineReader) : Prop where
  /-- The next word is read as the same. -/
  expecting : reader.expecting = reader'.expecting
  /-- The positional words are the same. -/
  positionals : reader.line.positionals = reader'.line.positionals

/-- Readers that agree still do after a word that makes both tables wait or none. -/
theorem Agree.step (hagree : Agree reader reader')
    (hwaits : table.waits word = other.waits word) :
    Agree (table.step reader word) (other.step reader' word) := by
  constructor
  · rw [expecting_step, expecting_step, hagree.expecting, hwaits]
  · rw [positionals_step, positionals_step, hagree.expecting, hagree.positionals]

/-- Readers that agree still do after words of which each makes both tables wait or none. -/
theorem Agree.foldl (hagree : Agree reader reader')
    (hwaits : ∀ word ∈ words, table.waits word = other.waits word) :
    Agree (words.foldl table.step reader) (words.foldl other.step reader') := by
  induction words generalizing reader reader' with
  | nil => exact hagree
  | cons word rest ih =>
    obtain ⟨hword, hrest⟩ := List.forall_mem_cons.mp hwaits
    exact ih (hagree.step hword) hrest

/-- Positional words are never taken back. -/
theorem positionals_prefix (table : OptionTable) (reader : LineReader) (words : List String) :
    reader.line.positionals <+: (words.foldl table.step reader).line.positionals := by
  induction words generalizing reader with
  | nil => exact List.prefix_rfl
  | cons word rest ih =>
    refine List.IsPrefix.trans ?_ (ih (table.step reader word))
    rw [positionals_step]
    exact List.prefix_append _ _

/-- The first positional words of a line are known once that many have been read. -/
theorem take_positionals_append {before : List String} {number : Nat}
    (hcount : number ≤ (table.parseLine before).positionals.length) (after : List String) :
    (table.parseLine (before ++ after)).positionals.take number =
      (table.parseLine before).positionals.take number := by
  have hbegins := table.positionals_prefix (before.foldl table.step {}) after
  rw [← List.foldl_append] at hbegins
  obtain ⟨more, hmore⟩ := hbegins
  change (table.parseLine before).positionals ++ more =
    (table.parseLine (before ++ after)).positionals at hmore
  rw [← hmore, List.take_append_of_le_length hcount]

/-- Plain words are positional where nothing else is expected. -/
theorem foldl_plain (table : OptionTable) (hexpecting : reader.expecting = .anything)
    (hplain : ∀ word ∈ words, isPlainWord word = true) :
    (words.foldl table.step reader).expecting = .anything ∧
      (words.foldl table.step reader).line.positionals = reader.line.positionals ++ words := by
  induction words generalizing reader with
  | nil => simpa using hexpecting
  | cons word rest ih =>
    obtain ⟨hword, hrest⟩ := List.forall_mem_cons.mp hplain
    have hnext : (table.step reader word).expecting = .anything := by
      simp [expecting_step, hexpecting, hword]
    have hfound := ih hnext hrest
    rw [List.foldl_cons]
    refine ⟨hfound.1, ?_⟩
    rw [hfound.2, positionals_step, hexpecting]
    simp [hword]

/-- Between plain words, an option that makes the table wait takes the next word away from
the positional ones, and any other option leaves it there. -/
theorem positionals_around {before after : List String} {option value : String}
    (hbefore : ∀ word ∈ before, isPlainWord word = true)
    (hoption : isPlainWord option = false) (hend : (option == "--") = false)
    (hvalue : isPlainWord value = true) (hafter : ∀ word ∈ after, isPlainWord word = true) :
    (table.parseLine (before ++ option :: value :: after)).positionals =
      before ++ (if table.waits option then [] else [value]) ++ after := by
  have hstart : ({} : LineReader).expecting = .anything := rfl
  obtain ⟨hexpecting, hfound⟩ := table.foldl_plain hstart hbefore
  -- The option and the next word, after which anything is expected again.
  have hoption_step : (table.step (before.foldl table.step {}) option).expecting =
      if table.waits option then .value else .anything := by
    rw [expecting_step, hexpecting]
    simp [hoption, hend]
  have hpair : ([option, value].foldl table.step (before.foldl table.step {})).expecting =
      .anything := by
    rw [List.foldl_cons, List.foldl_cons, List.foldl_nil, expecting_step, hoption_step]
    by_cases hwaits : table.waits option <;> simp [hwaits, hvalue]
  have hpositionals :
      ([option, value].foldl table.step (before.foldl table.step {})).line.positionals =
        before ++ (if table.waits option then [] else [value]) := by
    rw [List.foldl_cons, List.foldl_cons, List.foldl_nil, positionals_step, positionals_step,
      hoption_step, hexpecting, hfound]
    by_cases hwaits : table.waits option <;> simp [hwaits, hvalue, hoption]
  have hall := (table.foldl_plain hpair hafter).2
  rwa [hpositionals, ← List.foldl_append, ← List.foldl_append] at hall

/-- Plain words behind an option each are its values or positional words. -/
theorem foldl_values (table : OptionTable) {option : String} {values : List String}
    (hexpecting : reader.expecting = .anything) (hoption : isPlainWord option = false)
    (hend : (option == "--") = false) (hvalues : ∀ value ∈ values, isPlainWord value = true) :
    let result := (values.flatMap fun value => [option, value]).foldl table.step reader
    result.expecting = .anything ∧ result.line.positionals =
      reader.line.positionals ++ if table.waits option then [] else values := by
  induction values generalizing reader with
  | nil => simpa using hexpecting
  | cons value rest ih =>
    obtain ⟨hvalue, hrest⟩ := List.forall_mem_cons.mp hvalues
    have hoption_step : (table.step reader option).expecting =
        if table.waits option then .value else .anything := by
      rw [expecting_step, hexpecting]
      simp [hoption, hend]
    have hnext : (table.step (table.step reader option) value).expecting = .anything := by
      rw [expecting_step, hoption_step]
      by_cases hwaits : table.waits option <;> simp [hwaits, hvalue]
    have hfound := ih hnext hrest
    rw [List.flatMap_cons, List.foldl_append]
    refine ⟨hfound.1, ?_⟩
    rw [List.foldl_cons, List.foldl_cons, List.foldl_nil, hfound.2, positionals_step,
      positionals_step, hoption_step, hexpecting]
    by_cases hwaits : table.waits option <;> simp [hwaits, hvalue, hoption]

/-- If a word makes only one of two tables wait, there is a line on which one table has a
given plain word at a given number and the other has other positional words up to there. -/
theorem exists_take_ne {option name : String} {before : Nat}
    (hdiffer : other.waits option ≠ table.waits option) (hname : isPlainWord name = true)
    (hne : name ≠ "") : ∃ words, (table.parseLine words).positional? (before + 1) = some name ∧
      (other.parseLine words).positionals.take (before + 1) ≠
        (table.parseLine words).positionals.take (before + 1) := by
  have hnames : ∀ {count}, ∀ word ∈ List.replicate count name, isPlainWord word = true := by
    intro count word hword
    rwa [List.eq_of_mem_replicate hword]
  cases hother : other.waits option with
  | true =>
    have htable : table.waits option = false := by simpa [hother] using hdiffer
    obtain ⟨hoption, hend, -⟩ := of_waits hother
    -- The option comes last before the name, which is its value for the other table.
    have hfound := fun table : OptionTable => table.positionals_around (@hnames before) hoption hend
      hname (List.forall_mem_nil _)
    refine ⟨_, by rw [ParsedLine.positional?, hfound, htable]; simp, fun htake => ?_⟩
    rw [hfound, hfound, hother, htable] at htake
    simpa using congrArg List.length htake
  | false =>
    have htable : table.waits option = true := by simpa [hother] using hdiffer
    obtain ⟨hoption, hend, -⟩ := of_waits htable
    -- The option comes first, with a value that is positional for the other table.
    have hfound := fun table : OptionTable => table.positionals_around (List.forall_mem_nil _)
      hoption hend (show isPlainWord "" = true by decide) (@hnames (before + 1))
    refine ⟨_, by rw [ParsedLine.positional?, hfound, htable]; simp, fun htake => ?_⟩
    rw [hfound, hfound, hother, htable] at htake
    simp [List.replicate_succ, Ne.symm hne] at htake

end OptionTable
end ShellCompletion
