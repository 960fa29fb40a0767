import Mathlib.Data.List.Basic
import ShellCompletion.Proofs.CommandLine.Reading

/-!
# Where options are found

Each option on a command line is found in a word, and stacked short options are found in the
same one. Later options are found in the same or in later words.
-/

namespace ShellCompletion

/-! ## The last of several options -/

/-- The last of several options among those found, with the number of its word. -/
def lastIn (placed : List (Occurrence × Nat)) (strings : List String) : Option (Occurrence × Nat) :=
  placed.reverse.find? fun found => strings.contains found.1.option

/-- The number of the word of the last of several options, zero if there is none. -/
def positionIn (placed : List (Occurrence × Nat)) (strings : List String) : Nat :=
  ((lastIn placed strings).map (·.2)).getD 0

/-- The value of the last of several options, empty if there is none. -/
def valueIn (placed : List (Occurrence × Nat)) (strings : List String) : String :=
  ((lastIn placed strings).bind (·.1.value)).getD ""

variable {placed : List (Occurrence × Nat)} {strings : List String} {found : Occurrence × Nat}
  {line : ParsedLine}

/-- One more option found is the last of the options that it is one of. -/
theorem lastIn_append_singleton : lastIn (placed ++ [found]) strings =
    if found.1.option ∈ strings then some found else lastIn placed strings := by
  rw [lastIn, List.reverse_append, List.reverse_singleton, List.singleton_append, List.find?_cons]
  by_cases hmem : found.1.option ∈ strings
  · simp [hmem]
  · simp [hmem, lastIn]

/-- Which value is the last does not depend on the order of the options. -/
theorem valueIn_congr {others : List String}
    (hsame : ∀ string, string ∈ strings ↔ string ∈ others) :
    valueIn placed strings = valueIn placed others := by
  have htest : (fun found : Occurrence × Nat => strings.contains found.1.option) =
      fun found => others.contains found.1.option :=
    funext fun found => Bool.eq_iff_iff.mpr (by simpa using hsame found.1.option)
  rw [valueIn, valueIn, lastIn, lastIn, htest]

/-- The last of several options is one of them, and none of them follows it. -/
theorem lastIn_eq_some_iff : lastIn placed strings = some found ↔ found.1.option ∈ strings ∧
    ∃ before after, placed = before ++ found :: after ∧
      ∀ later ∈ after, later.1.option ∉ strings := by
  rw [lastIn, List.find?_eq_some_iff_append, List.contains_iff_mem]
  refine and_congr_right fun _ => ?_
  constructor
  · rintro ⟨after, before, hplaced, hafter⟩
    refine ⟨before.reverse, after.reverse, ?_, fun later hlater => ?_⟩
    · rw [← List.reverse_reverse placed, hplaced]
      simp
    · simpa using hafter later (List.mem_reverse.mp hlater)
  · rintro ⟨before, after, rfl, hafter⟩
    refine ⟨after.reverse, before.reverse, by simp, fun later hlater => ?_⟩
    simpa using hafter later (List.mem_reverse.mp hlater)

/-- The last of several options is also the last of fewer ones of which it is one. -/
theorem lastIn_of_subset {fewer : List String} (hlast : lastIn placed strings = some found)
    (hsubset : fewer ⊆ strings) (hmem : found.1.option ∈ fewer) :
    lastIn placed fewer = some found := by
  obtain ⟨-, before, after, hplaced, hafter⟩ := lastIn_eq_some_iff.mp hlast
  exact lastIn_eq_some_iff.mpr ⟨hmem, before, after, hplaced,
    fun later hlater hlater' => hafter later hlater (hsubset hlater')⟩

/-- The last of several options comes after the others. -/
theorem eq_or_of_lastIn {order : Occurrence × Nat → Occurrence × Nat → Prop}
    (horder : placed.Pairwise order) {last : Occurrence × Nat}
    (hlast : lastIn placed strings = some last) (hfound : found ∈ placed)
    (hmem : found.1.option ∈ strings) : found = last ∨ order found last := by
  obtain ⟨-, before, after, rfl, hafter⟩ := lastIn_eq_some_iff.mp hlast
  rcases List.mem_append.mp hfound with hbefore | hrest
  · exact .inr ((List.pairwise_append.mp horder).2.2 found hbefore last List.mem_cons_self)
  · rcases List.mem_cons.mp hrest with rfl | hlater
    · exact .inl rfl
    · exact absurd hmem (hafter found hlater)

/-- The last of several options is one of those found. -/
theorem mem_of_lastIn (hlast : lastIn placed strings = some found) :
    found ∈ placed ∧ found.1.option ∈ strings := by
  obtain ⟨hmem, before, after, rfl, -⟩ := lastIn_eq_some_iff.mp hlast
  exact ⟨by simp, hmem⟩

/-- There is a last one of several options if one of them is found. -/
theorem exists_lastIn (hfound : found ∈ placed) (hmem : found.1.option ∈ strings) :
    ∃ last, lastIn placed strings = some last :=
  Option.isSome_iff_exists.mp (List.find?_isSome.mpr
    ⟨found, List.mem_reverse.mpr hfound, List.contains_iff_mem.mpr hmem⟩)

/-- The last of several options on a line is the last of those found. -/
theorem lastOf?_eq_lastIn (hplaced : line.occurrences = placed.map (·.1)) (strings : List String) :
    line.lastOf? strings = (lastIn placed strings).map (·.1) := by
  rw [ParsedLine.lastOf?, hplaced, ← List.map_reverse, List.find?_map]
  rfl

/-- One of several options is on a line if there is a last one. -/
theorem hasOption_iff_lastOf? {strings : List String} :
    line.hasOption strings = true ↔ ∃ found, line.lastOf? strings = some found := by
  rw [ParsedLine.hasOption, ← Option.isSome_iff_exists, ParsedLine.lastOf?, List.find?_isSome,
    List.any_eq_true]
  simp only [List.mem_reverse]

/-! ## Options in order -/

/-- A value is given to an option that was found before. -/
theorem ParsedLine.map_option_giveValue (line : ParsedLine) (word : String) :
    (line.giveValue word).occurrences.map (·.option) = line.occurrences.map (·.option) := by
  rw [giveValue]
  split
  · rfl
  · rename_i last earlier hlast
    rw [← List.reverse_reverse line.occurrences, hlast]
    simp

/-- The value given after more options is that of the last of them. -/
theorem ParsedLine.giveValue_addOptions (line : ParsedLine) (found : List Occurrence)
    (string word : String) (value : Option String) :
    (line.addOptions (found ++ [⟨string, value⟩])).giveValue word =
      line.addOptions (found ++ [⟨string, some word⟩]) := by
  simp [giveValue, addOptions]

namespace OptionTable

variable {table : OptionTable} {reader : LineReader} {words more : List String}
  {options : List Occurrence} {number place : Nat}

/-- What is known after the words of a command line. -/
def readerAfter (table : OptionTable) (words : List String) : LineReader :=
  words.foldl table.step {}

/-- More words are read one by one. -/
theorem readerAfter_append (table : OptionTable) (words more : List String) :
    table.readerAfter (words ++ more) = more.foldl table.step (table.readerAfter words) :=
  List.foldl_append

/-- Options found are not forgotten. -/
theorem length_occurrences_step_le (table : OptionTable) (reader : LineReader) (word : String) :
    reader.line.occurrences.length ≤ (table.step reader word).line.occurrences.length := by
  rw [step]
  split
  · have hsame := congrArg List.length (reader.line.map_option_giveValue word)
    rw [List.length_map, List.length_map] at hsame
    exact Nat.le_of_eq hsame.symm
  · exact Nat.le_refl _
  · split
    · exact Nat.le_refl _
    · split
      · exact Nat.le_refl _
      · simp [ParsedLine.addOptions]

/-! ## Places of all options -/

/-- The numbers of the words in which the options on the rest of a line are found, if the
next word has a number. -/
def placesFrom (table : OptionTable) (number : Nat) (reader : LineReader) :
    List String → List Nat
  | [] => []
  | word :: rest =>
    let after := table.step reader word
    List.replicate (after.line.occurrences.length - reader.line.occurrences.length) number ++
      table.placesFrom (number + 1) after rest

/-- The options on a command line with the numbers of their words, which are counted from
one. -/
def placedOptions (table : OptionTable) (words : List String) : List (Occurrence × Nat) :=
  (table.parseLine words).occurrences.zip (table.placesFrom 1 {} words)

/-- The options on a command line whose values have been typed if they have any: all, but for
the last one while its value is being typed. -/
def settledOptions (table : OptionTable) (words : List String) : List (Occurrence × Nat) :=
  if (table.readerAfter words).expecting = .value then (table.placedOptions words).dropLast
  else table.placedOptions words

/-- The places in more words follow. -/
theorem placesFrom_append (table : OptionTable) (number : Nat) (reader : LineReader)
    (words more : List String) : table.placesFrom number reader (words ++ more) =
      table.placesFrom number reader words ++
        table.placesFrom (number + words.length) (words.foldl table.step reader) more := by
  induction words generalizing number reader with
  | nil => rfl
  | cons word rest ih =>
    rw [List.cons_append, placesFrom, placesFrom, ih, List.append_assoc, List.length_cons,
      List.foldl_cons, Nat.add_assoc, Nat.add_comm 1]

/-- Every option has a place. -/
theorem length_placesFrom (table : OptionTable) (number : Nat) (reader : LineReader)
    (words : List String) :
    reader.line.occurrences.length + (table.placesFrom number reader words).length =
      (words.foldl table.step reader).line.occurrences.length := by
  induction words generalizing number reader with
  | nil => rfl
  | cons word rest ih =>
    have hle := table.length_occurrences_step_le reader word
    rw [placesFrom, List.length_append, List.length_replicate, List.foldl_cons,
      ← ih (number + 1) (table.step reader word)]
    omega

/-- The options found are those with places. -/
theorem map_fst_placedOptions (table : OptionTable) (words : List String) :
    (table.placedOptions words).map (·.1) = (table.parseLine words).occurrences := by
  have hlength : (table.placesFrom 1 {} words).length =
      (table.parseLine words).occurrences.length := by
    simpa [parseLine] using table.length_placesFrom 1 {} words
  exact List.map_fst_zip (Nat.le_of_eq hlength.symm)

/-- Options found in one of the next words, and in the words after it, are placed there. -/
theorem placedOptions_append
    (hoptions : (table.readerAfter (words ++ more)).line.occurrences =
      (table.readerAfter words).line.occurrences ++ options)
    (hplaces : table.placesFrom (words.length + 1) (table.readerAfter words) more =
      List.replicate options.length number) :
    table.placedOptions (words ++ more) =
      table.placedOptions words ++ options.map fun found => (found, number) := by
  have hlength : (table.readerAfter words).line.occurrences.length =
      (table.placesFrom 1 {} words).length := by
    simpa [readerAfter] using (table.length_placesFrom 1 {} words).symm
  have hall : table.placesFrom 1 {} (words ++ more) =
      table.placesFrom 1 {} words ++ List.replicate options.length number := by
    rw [placesFrom_append, Nat.add_comm, ← hplaces]
    rfl
  change (table.readerAfter (words ++ more)).line.occurrences.zip _ = _
  rw [hoptions, hall, List.zip_append hlength, List.map_prod_left_eq_zip, List.map_const']
  rfl

/-- Options found in the next word are placed there. -/
theorem placedOptions_append_singleton {word : String}
    (hoptions : (table.readerAfter (words ++ [word])).line.occurrences =
      (table.readerAfter words).line.occurrences ++ options) :
    table.placedOptions (words ++ [word]) =
      table.placedOptions words ++ options.map fun found => (found, words.length + 1) := by
  refine placedOptions_append hoptions ?_
  rw [readerAfter_append, List.foldl_cons, List.foldl_nil] at hoptions
  rw [placesFrom, placesFrom, hoptions, List.append_nil, List.length_append,
    Nat.add_sub_cancel_left]

/-- Options found in the next word are placed there if the word after it is the value of the
last of them. -/
theorem placedOptions_append_pair {word text : String}
    (hfirst : (table.step (table.readerAfter words) word).line.occurrences.length =
      (table.readerAfter words).line.occurrences.length + options.length)
    (hoptions : (table.readerAfter (words ++ [word, text])).line.occurrences =
      (table.readerAfter words).line.occurrences ++ options) :
    table.placedOptions (words ++ [word, text]) =
      table.placedOptions words ++ options.map fun found => (found, words.length + 1) := by
  refine placedOptions_append hoptions ?_
  rw [readerAfter_append, List.foldl_cons, List.foldl_cons, List.foldl_nil] at hoptions
  rw [placesFrom, placesFrom, placesFrom, hoptions, hfirst, List.length_append, Nat.sub_self,
    List.replicate_zero, List.append_nil, List.append_nil, Nat.add_sub_cancel_left]

/-- The options on the rest of a line are found in its words. -/
theorem le_of_mem_placesFrom (hplace : place ∈ table.placesFrom number reader words) :
    number ≤ place := by
  induction words generalizing number reader with
  | nil => cases hplace
  | cons word rest ih =>
    rcases List.mem_append.mp hplace with hfirst | hrest
    · exact Nat.le_of_eq (List.eq_of_mem_replicate hfirst).symm
    · exact Nat.le_of_succ_le (ih hrest)

/-- Words are numbered up to the last one. -/
theorem lt_of_mem_placesFrom (hplace : place ∈ table.placesFrom number reader words) :
    place < number + words.length := by
  induction words generalizing number reader with
  | nil => cases hplace
  | cons word rest ih =>
    rw [List.length_cons]
    rcases List.mem_append.mp hplace with hfirst | hrest
    · have heq := List.eq_of_mem_replicate hfirst
      omega
    · have hlt := ih hrest
      omega

/-- Words are counted from one. -/
theorem pos_of_mem_placedOptions {found : Occurrence × Nat}
    (hfound : found ∈ table.placedOptions words) : 0 < found.2 :=
  le_of_mem_placesFrom (List.of_mem_zip hfound).2

/-- An option has a position if it is on the line. -/
theorem positionIn_ne_zero_iff {strings : List String} :
    positionIn (table.placedOptions words) strings ≠ 0 ↔
      (table.parseLine words).hasOption strings = true := by
  rw [hasOption_iff_lastOf?, lastOf?_eq_lastIn (table.map_fst_placedOptions words).symm, positionIn]
  cases hlast : lastIn (table.placedOptions words) strings with
  | none => simp
  | some found =>
    have hmem : found ∈ table.placedOptions words :=
      List.mem_reverse.mp (List.mem_of_find?_eq_some hlast)
    simpa using Nat.ne_of_gt (pos_of_mem_placedOptions hmem)

/-- An option whose value is not being typed has the value of its last occurrence. -/
theorem valueIn_settledOptions {strings : List String}
    (hsettled : (table.readerAfter words).expecting = .value →
      ∀ last ∈ (table.placedOptions words).getLast?, last.1.option ∉ strings) :
    valueIn (table.settledOptions words) strings =
      (((table.parseLine words).lastOf? strings).bind (·.value)).getD "" := by
  have hlast : lastIn (table.settledOptions words) strings =
      lastIn (table.placedOptions words) strings := by
    rw [settledOptions]
    split
    · rename_i hvalue
      cases hoptions : (table.placedOptions words).getLast? with
      | none => rw [List.getLast?_eq_none_iff.mp hoptions, List.dropLast_nil]
      | some last =>
        rw [← List.dropLast_append_getLast? last hoptions, lastIn_append_singleton,
          if_neg (hsettled hvalue last hoptions), List.dropLast_concat]
    · rfl
  rw [valueIn, hlast, lastOf?_eq_lastIn (table.map_fst_placedOptions words).symm]
  cases lastIn (table.placedOptions words) strings <;> rfl

end OptionTable
end ShellCompletion
