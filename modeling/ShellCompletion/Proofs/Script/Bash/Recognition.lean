import ShellCompletion.Proofs.CommandLine.Names
import ShellCompletion.Proofs.Script.Bash.ScopedOptions
import ShellCompletion.Script.Bash.ReadingLoop

/-!
# Which option a word is for

The reading loop of a bash function tries its cases in order, and the option table of the
command looks names up. Both find the same option for a word and for a letter, as long as no
option string has an equals sign in it.
-/

namespace ShellCompletion

namespace Bash

variable {scope : Scope} {options : List ScopedOption} {option : ScopedOption}
  {string word : String} {letter : Char}

/-! ## Which case is taken -/

namespace Case

variable {α β : Type}

/-- The first case that matches is taken. -/
theorem select?_cons (case : Case α) (rest : List (Case α)) (text : String) :
    select? (case :: rest) text =
      if case.patterns.any (·.accepts text) then some case.action else select? rest text := by
  rw [select?, List.find?_cons]
  cases case.patterns.any (·.accepts text) <;> rfl

/-- Later cases are tried if no earlier one matches. -/
theorem select?_append (cases rest : List (Case α)) (text : String) :
    select? (cases ++ rest) text = (select? cases text).or (select? rest text) := by
  rw [select?, List.find?_append, Option.map_or]
  rfl

/-- The cases for several items are tried in the order of the items. -/
theorem select?_flatMap (cases : β → List (Case α)) (items : List β) (text : String) :
    select? (items.flatMap cases) text = items.findSome? fun item => select? (cases item) text := by
  induction items with
  | nil => rfl
  | cons item rest ih =>
    rw [List.flatMap_cons, select?_append, ih, List.findSome?_cons]
    cases select? (cases item) text <;> rfl

end Case

/-- If each item gives a result exactly if it passes a test, the first one that passes gives
the result. -/
theorem findSome?_eq_map_find? {α β : Type} {items : List α} {attempt : α → Option β}
    {test : α → Prop} [DecidablePred test] {result : α → β}
    (hitems : ∀ item ∈ items, attempt item = if test item then some (result item) else none) :
    items.findSome? attempt = (items.find? (test ·)).map result := by
  induction items with
  | nil => rfl
  | cons item rest ih =>
    obtain ⟨hitem, hrest⟩ := List.forall_mem_cons.mp hitems
    rw [List.findSome?_cons, List.find?_cons, hitem, ih hrest]
    by_cases htest : test item <;> simp [htest]

/-- Where the value comes from that a word gives to an option. -/
def sourceOf : Arity → Option String → ValueSource
  | .absent, _ => .none
  | .optional, none => .empty
  | .required, none => .next
  | .optional, some _ | .required, some _ => .attached

/-- One of the patterns of spellings accepts a word if its name is one of the spellings and its
value is of the kind that the patterns are for. -/
theorem any_accepts_iff {words : List String} (word : String) (pattern : String → Pattern)
    (holds : Option String → Prop) (hpattern : ∀ spelling ∈ words,
      (pattern spelling).accepts word = true ↔
        (OptionTable.splitWord word).1 = spelling ∧ holds (OptionTable.splitWord word).2) :
    (words.map pattern).any (·.accepts word) = true ↔
      (OptionTable.splitWord word).1 ∈ words ∧ holds (OptionTable.splitWord word).2 := by
  rw [List.any_map, List.any_eq_true]
  constructor
  · rintro ⟨spelling, hspelling, hword⟩
    obtain ⟨rfl, hvalue⟩ := (hpattern spelling hspelling).mp hword
    exact ⟨hspelling, hvalue⟩
  · rintro ⟨hspelling, hvalue⟩
    exact ⟨_, hspelling, (hpattern _ hspelling).mpr ⟨rfl, hvalue⟩⟩

/-- The cases of an option are for the words with the name of one of its spellings. -/
theorem select?_wordCases (hequals : ∀ spelling ∈ option.words, '=' ∉ spelling.toList)
    (word : String) : Case.select? (wordCases option) word =
      if (OptionTable.splitWord word).1 ∈ option.words then
        some (.give option (sourceOf option.arity (OptionTable.splitWord word).2))
      else none := by
  have hbare := any_accepts_iff word .exactly (· = none) fun spelling hspelling =>
    beq_iff_eq.trans (OptionTable.eq_iff_splitWord (hequals spelling hspelling))
  have hattached : (attachedPatterns option.words).any (·.accepts word) = true ↔ _ :=
    any_accepts_iff word (fun spelling => .beginning (spelling ++ "=")) (· ≠ none)
      fun spelling hspelling => OptionTable.beginsWith_iff_splitWord (hequals spelling hspelling)
  have hnone : Case.select? ([] : List (Case WordAction)) word = none := rfl
  by_cases hname : (OptionTable.splitWord word).1 ∈ option.words
  · have hwords : option.words ≠ [] := List.ne_nil_of_mem hname
    rw [if_pos hname]
    cases hvalue : (OptionTable.splitWord word).2 with
    | none =>
      have hyes := hbare.mpr ⟨hname, hvalue⟩
      cases harity : option.arity <;>
        simp [wordCases, hwords, harity, Case.select?_cons, hyes, sourceOf]
    | some value =>
      have hno := (not_congr hbare).mpr fun h => Option.some_ne_none _ (hvalue.symm.trans h.2)
      have hyes := hattached.mpr ⟨hname, hvalue ▸ Option.some_ne_none value⟩
      cases harity : option.arity <;>
        simp [wordCases, hwords, harity, Case.select?_cons, hno, hyes, sourceOf]
  · have hno := (not_congr hbare).mpr fun h => hname h.1
    have hno' := (not_congr hattached).mpr fun h => hname h.1
    rw [if_neg hname, wordCases]
    split
    · rfl
    · cases option.arity <;> simp [Case.select?_cons, hno, hno', hnone]

/-- The case of an option is for its letters. -/
theorem select?_letterCases (option : ScopedOption) (letter : Char) :
    Case.select? (letterCases option) (String.singleton letter) =
      if letter ∈ option.letters then some (.give option) else none := by
  have hany : (letterPatterns option.letters).any (·.accepts (String.singleton letter)) = true ↔
      letter ∈ option.letters := by
    simp [letterPatterns, Pattern.accepts, String.singleton_inj]
  rw [letterCases]
  by_cases hletter : letter ∈ option.letters
  · have hletters : option.letters ≠ [] := List.ne_nil_of_mem hletter
    simp [hletters, hletter, Case.select?_cons, hany.mpr hletter]
  · rw [if_neg hletter]
    split
    · rfl
    · rw [Case.select?_cons, if_neg ((not_congr hany).mpr hletter)]
      rfl

/-- What is done for a letter. -/
theorem select?_stackCases (options : List ScopedOption) (letter : Char) :
    Case.select? (stackCases options) (String.singleton letter) =
      some (match options.find? (letter ∈ ·.letters) with
        | some option => .give option
        | none => .skip) := by
  rw [stackCases, Case.select?_append, Case.select?_flatMap,
    findSome?_eq_map_find? fun option _ => select?_letterCases option letter]
  cases options.find? (letter ∈ ·.letters) <;> rfl

/-- The word that ends the options has the first case. -/
theorem select?_loopCases_end (options : List ScopedOption) :
    Case.select? (loopCases options) "--" = some .endOptions :=
  rfl

/-- What is done for a word that is not positional and does not end the options. -/
theorem select?_loopCases
    (hequals : ∀ option ∈ options, ∀ spelling ∈ option.words, '=' ∉ spelling.toList)
    (hend : (word == "--") = false) : Case.select? (loopCases options) word =
      some (match options.find? ((OptionTable.splitWord word).1 ∈ ·.words) with
        | some option => .give option (sourceOf option.arity (OptionTable.splitWord word).2)
        | none =>
          if Text.beginsWith word "--" then .skip else .letters (stackCases options)) := by
  have hfirst : [Pattern.exactly "--"].any (·.accepts word) = false := by
    simpa [Pattern.accepts] using hend
  rw [loopCases, Case.select?_append, Case.select?_append, Case.select?_flatMap,
    findSome?_eq_map_find? fun option hoption => select?_wordCases (hequals option hoption) word,
    Case.select?_cons, hfirst]
  cases options.find? ((OptionTable.splitWord word).1 ∈ ·.words) with
  | some option => rfl
  | none =>
    by_cases hdashes : Text.beginsWith word "--" = true <;>
      simp [Pattern.accepts, hdashes, Case.select?]

/-! ## What the table finds -/

/-- The entry of a string is that of the option of the function that has the string. -/
theorem namedOf?_eq_some_iff {kind : OptionKind} {entry : OptionEntry} :
    scope.optionTable.namedOf? kind string = some entry ↔
      ∃ option ∈ scopedOptions scope, string ∈ option.strings ∧ OptionKind.of string = kind ∧
        entry = ⟨string, option.arity⟩ := by
  rw [OptionTable.namedOf?_eq_some, Scope.named?_optionTable]
  simp only [Option.map_eq_some_iff, ← exists_scopedOption]
  constructor
  · rintro ⟨⟨_, ⟨option, hoption, rfl, hstring⟩, rfl⟩, hkind⟩
    exact ⟨option, hoption, hstring, hkind, rfl⟩
  · rintro ⟨option, hoption, hstring, hkind, rfl⟩
    exact ⟨⟨_, ⟨option, hoption, rfl, hstring⟩, rfl⟩, hkind⟩

/-- A word is looked up as the entry of the long or old-style string that it stands for. -/
theorem lookup?_eq_some_iff {kind : OptionKind} (hkind : kind ≠ .short) {entry : OptionEntry} :
    scope.optionTable.lookup? kind word = some entry ↔
      ∃ option ∈ scopedOptions scope, ∃ string ∈ option.strings, OptionKind.of string = kind ∧
        Spellings.Spells scope.optionTable.tokens minOptionBeginning scope.abbreviateOptions word
          string ∧ entry = ⟨string, option.arity⟩ := by
  have hlookup : scope.optionTable.lookup? kind word = some entry ↔
      scope.optionTable.namedOf? kind entry.option = some entry ∧
        Spellings.Spells scope.optionTable.tokens minOptionBeginning scope.abbreviateOptions word
          entry.option := OptionTable.lookup?_withAbbreviations hkind
  rw [hlookup, namedOf?_eq_some_iff]
  constructor
  · rintro ⟨⟨option, hoption, hstring, hof, hentry⟩, hspells⟩
    exact ⟨option, hoption, entry.option, hstring, hof, hspells, hentry⟩
  · rintro ⟨option, hoption, string, hstring, hof, hspells, rfl⟩
    exact ⟨⟨option, hoption, hstring, hof, rfl⟩, hspells⟩

/-- A word with the name of a spelling of an option gives the option in the table. -/
theorem readOptionWord_of_mem_words (hoption : option ∈ scopedOptions scope)
    (hname : (OptionTable.splitWord word).1 ∈ option.words) :
    ∃ string ∈ option.strings, scope.optionTable.readOptionWord word =
      OptionTable.readEntry ⟨string, option.arity⟩ (OptionTable.splitWord word).2 := by
  obtain ⟨token, htoken, hkind, hspells⟩ := (mem_words hoption).mp hname
  have howner := owner?_of_mem_strings hoption htoken
  have hnamed : scope.optionTable.named? token = some ⟨token, option.arity⟩ := by
    rw [Scope.named?_optionTable, howner]
    rfl
  have hlength : 3 ≤ (OptionTable.splitWord word).1.length := by
    rcases hspells.prefix_and_length.2 with heq | hlength
    · rw [heq]
      exact CommandOption.three_le_length (Scope.mem_of_owner? howner).2 hkind
    · exact hlength
  exact ⟨token, htoken, OptionTable.readOptionWord_of_spells hnamed hkind hlength hspells⟩

/-- A word without the name of a spelling of any option is passed over or read as stacked
letters by the table. -/
theorem readOptionWord_of_forall_notMem
    (hnone : ∀ option ∈ scopedOptions scope, (OptionTable.splitWord word).1 ∉ option.words) :
    scope.optionTable.readOptionWord word =
      if Text.beginsWith word "--" then ⟨[], false⟩
      else scope.optionTable.readStack (word.toList.drop 1) := by
  have hlookup : ∀ kind ≠ OptionKind.short,
      scope.optionTable.lookup? kind (OptionTable.splitWord word).1 = none := by
    intro kind hkind
    cases hentry : scope.optionTable.lookup? kind (OptionTable.splitWord word).1 with
    | none => rfl
    | some entry =>
      obtain ⟨option, hoption, string, hstring, rfl, hspells, -⟩ :=
        (lookup?_eq_some_iff hkind).mp hentry
      exact absurd ((mem_words hoption).mpr ⟨string, hstring, hkind, hspells⟩)
        (hnone option hoption)
  rw [OptionTable.readOptionWord]
  simp only [hlookup .long (by decide), hlookup .oldStyle (by decide), ite_self]

/-- A letter of an option gives the option in the table. -/
theorem namedOf?_of_mem_letters (hoption : option ∈ scopedOptions scope)
    (hletter : letter ∈ option.letters) : String.ofList ['-', letter] ∈ option.strings ∧
      scope.optionTable.namedOf? .short (String.ofList ['-', letter]) =
        some ⟨String.ofList ['-', letter], option.arity⟩ := by
  obtain ⟨hstring, hkind⟩ := (mem_letters hoption).mp hletter
  exact ⟨hstring, namedOf?_eq_some_iff.mpr ⟨option, hoption, hstring, hkind, rfl⟩⟩

/-- A letter of no option gives none in the table. -/
theorem namedOf?_eq_none (hnone : ∀ option ∈ scopedOptions scope, letter ∉ option.letters) :
    scope.optionTable.namedOf? .short (String.ofList ['-', letter]) = none := by
  cases hentry : scope.optionTable.namedOf? .short (String.ofList ['-', letter]) with
  | none => rfl
  | some entry =>
    obtain ⟨option, hoption, hstring, hkind, -⟩ := namedOf?_eq_some_iff.mp hentry
    exact absurd ((mem_letters hoption).mpr ⟨hstring, hkind⟩) (hnone option hoption)

end Bash
end ShellCompletion
