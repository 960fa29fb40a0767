import ShellCompletion.Proofs.CommandLine.Continuation
import ShellCompletion.Proofs.CommandLine.Names

/-!
# Where values come from

The value of an option is attached to it in its word or is the next word. Which of these it can be
follows from the arity of the option and from what else stands in the word.
-/

namespace ShellCompletion

/-- A text is attached to an option in a word: behind an equals sign after the option string or a
beginning of it, or behind the letter of the option in a stack. -/
def AttachedIn (word option text : String) : Prop :=
  (∃ name : String, name.toList <+: option.toList ∧ '=' ∉ name.toList ∧
    word = name ++ "=" ++ text) ∨
  ∃ before letter, option = String.ofList ['-', letter] ∧ text ≠ "" ∧
    word.toList = '-' :: before ++ letter :: text.toList

/-- Where the value of an option comes from by its arity. An option without values has none. An
optional value is attached to the option in its word. A required value is attached or, if
`separate` allows for it, is not in the word of the option. -/
def ValueFrom (word : String) (entry : OptionEntry) (value : Option String) (separate : Prop) :
    Prop :=
  match entry.arity with
  | .absent => value = none
  | .optional => ∀ text ∈ value, AttachedIn word entry.option text
  | .required => (∃ text ∈ value, AttachedIn word entry.option text) ∨ separate

/-- A required value may be separate under a weaker condition. -/
theorem ValueFrom.imp {word : String} {entry : OptionEntry} {value : Option String}
    {separate separate' : Prop} (hfrom : ValueFrom word entry value separate)
    (himp : separate → separate') : ValueFrom word entry value separate' := by
  unfold ValueFrom at hfrom ⊢
  cases harity : entry.arity with
  | absent => simpa only [harity] using hfrom
  | optional => simpa only [harity] using hfrom
  | required =>
    simp only [harity] at hfrom ⊢
    exact hfrom.imp_right himp

namespace OptionTable

variable {table : OptionTable} {entry : OptionEntry} {found earlier : List Occurrence}
  {last : Occurrence} {words rest : List String} {word value : String}
  {separate separate' : Option String → Prop}

/-- Every option found in a word has an entry, and a value as the entry asks for. Only the last one
can have a separate value. -/
def ValuesFrom (table : OptionTable) (word : String) (separate : Option String → Prop) :
    List Occurrence → Prop
  | [] => True
  | option :: later =>
    (∃ entry, table.named? option.option = some entry ∧
      ValueFrom word entry option.value (later = [] ∧ separate option.value)) ∧
    table.ValuesFrom word separate later

/-- The last value may be separate under a weaker condition. -/
theorem ValuesFrom.imp (hfrom : table.ValuesFrom word separate found)
    (himp : ∀ value, separate value → separate' value) :
    table.ValuesFrom word separate' found := by
  induction found with
  | nil => trivial
  | cons option later ih =>
    obtain ⟨⟨entry, hnamed, hvalue⟩, hlater⟩ := hfrom
    exact ⟨⟨entry, hnamed, hvalue.imp (And.imp_right (himp _))⟩, ih hlater⟩

/-- Each of several options has an entry and a value as that asks for. -/
theorem ValuesFrom.exists_entry
    (hfrom : table.ValuesFrom word separate (earlier ++ last :: later)) :
    ∃ entry, table.named? last.option = some entry ∧
      ValueFrom word entry last.value (later = [] ∧ separate last.value) := by
  induction earlier with
  | nil => exact hfrom.1
  | cons _ _ ih => exact ih hfrom.2

/-- The option that waits for its value gets it. -/
theorem ValuesFrom.give (hfrom : table.ValuesFrom word separate (earlier ++ [last]))
    (hrequires : table.Requires last.option) (value : String) :
    table.ValuesFrom word (· = some value) (earlier ++ [{ last with value := some value }]) := by
  induction earlier with
  | nil =>
    obtain ⟨entry, hnamed, harity⟩ := hrequires
    refine ⟨⟨entry, hnamed, ?_⟩, trivial⟩
    rw [ValueFrom, harity]
    exact .inr ⟨rfl, rfl⟩
  | cons option later ih =>
    obtain ⟨⟨entry, hnamed, hvalue⟩, hlater⟩ := hfrom
    refine ⟨⟨entry, hnamed, hvalue.imp fun hnone => ?_⟩, ih hlater⟩
    simp at hnone

/-- The option of an entry has what is attached to it. -/
theorem valuesFrom_readEntry (hnamed : table.named? entry.option = some entry)
    {attached : Option String} (hattached : ∀ text ∈ attached, AttachedIn word entry.option text) :
    let options := readEntry entry attached
    table.ValuesFrom word (fun value => value = none ∧ options.waits = true) options.found := by
  intro options
  cases harity : entry.arity with
  | absent =>
    simp [options, readEntry, harity, ValuesFrom, ValueFrom, hnamed]
  | optional =>
    simpa [options, readEntry, harity, ValuesFrom, ValueFrom, hnamed] using hattached
  | required =>
    cases attached with
    | none => simp [options, readEntry, harity, ValuesFrom, ValueFrom, hnamed]
    | some text => simpa [options, readEntry, harity, ValuesFrom, ValueFrom, hnamed] using hattached

/-- The options of a stack have what follows their letters. -/
theorem valuesFrom_readStack (table : OptionTable) {before letters : List Char}
    (hword : word.toList = '-' :: before ++ letters) :
    let options := table.readStack letters
    table.ValuesFrom word (fun value => value = none ∧ options.waits = true) options.found := by
  induction letters generalizing before with
  | nil => trivial
  | cons letter rest ih =>
    have hrest := ih (show word.toList = '-' :: (before ++ [letter]) ++ rest by simp [hword])
    cases hnamed : table.namedOf? .short (String.ofList ['-', letter]) with
    | none => simpa only [readStack, hnamed] using hrest
    | some entry =>
      have hentry := named?_of_namedOf? hnamed
      have hoption := option_of_namedOf? hnamed
      let attached := if rest.isEmpty then none else some (String.ofList rest)
      have hattached : ∀ text ∈ attached, AttachedIn word entry.option text := by
        intro text htext
        cases rest with
        | nil => simp [attached] at htext
        | cons next rest =>
          obtain rfl : String.ofList (next :: rest) = text := by simpa [attached] using htext
          exact .inr ⟨before, letter, hoption, by simp, by simpa using hword⟩
      -- An option that is no flag is read as one in a word of its own.
      have hread := valuesFrom_readEntry hentry hattached
      cases harity : entry.arity with
      | absent =>
        simp only [readStack, hnamed, harity]
        exact ⟨⟨entry, hentry, by simp [ValueFrom, harity]⟩, hrest⟩
      | optional => simpa only [readStack, hnamed, readEntry, harity] using hread
      | required => simpa only [readStack, hnamed, readEntry, harity] using hread

/-- The options of a word have what is attached to them in the word. -/
theorem valuesFrom_readOptionWord (table : OptionTable) (hplain : isPlainWord word = false) :
    table.ValuesFrom word (fun value => value = none ∧ (table.readOptionWord word).waits = true)
      (table.readOptionWord word).found := by
  have hattached : ∀ {kind entry}, table.lookup? kind (splitWord word).1 = some entry →
      ∀ text ∈ (splitWord word).2, AttachedIn word entry.option text := by
    intro kind entry hlookup text htext
    rcases splitWord_cases word with ⟨hnone, -⟩ | ⟨value, hvalue, hword, hequals⟩
    · rw [hnone] at htext
      cases htext
    · obtain rfl : value = text := Option.some.inj (hvalue.symm.trans htext)
      exact .inl ⟨_, prefix_of_lookup? hlookup, hequals, hword⟩
  rw [readOptionWord]
  split
  · split
    · rename_i hlookup
      exact valuesFrom_readEntry (named?_of_lookup? hlookup) (hattached hlookup)
    · trivial
  · split
    · rename_i hlookup
      split at hlookup
      · exact valuesFrom_readEntry (named?_of_lookup? hlookup) (hattached hlookup)
      · cases hlookup
    · refine table.valuesFrom_readStack (show word.toList = '-' :: [] ++ word.toList.drop 1 from ?_)
      have hdash : Text.beginsWith word "-" = true := by
        simpa [isPlainWord] using (Bool.or_eq_false_iff.mp hplain).2
      obtain ⟨rest, hrest⟩ := Text.beginsWith_iff.mp hdash
      rw [← hrest]
      rfl

end OptionTable
end ShellCompletion
