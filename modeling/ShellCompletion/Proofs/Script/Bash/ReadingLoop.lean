import ShellCompletion.Proofs.CommandLine.Stacks
import ShellCompletion.Proofs.Script.Bash.Recognition

/-!
# The reading loop reads what the table reads

The reading loop of a bash function takes a value together with its option, the reader of the
command takes it one word later. Apart from that both find the same, as long as no option
string has an equals sign in it. So after the loop the variables of the function say of every
option where it was found last, and with which value.
-/

namespace ShellCompletion
namespace Bash

variable {scope : Scope} {option other : ScopedOption} {state after : LoopState}
  {reader : LineReader} {placed settled : List (Occurrence × Nat)} {number : Nat}
  {next attached : Option String} {string word text : String} {words more : List String}
  {found before : List Occurrence}

/-! ## Variables of options -/

/-- The variables say of every option where it is among the options found, and which value it
has among those whose values are settled. -/
structure Keeps (options : List ScopedOption) (state : LoopState)
    (placed settled : List (Occurrence × Nat)) : Prop where
  /-- The position is that of the last occurrence. -/
  position : ∀ option ∈ options, state.position option.name = positionIn placed option.strings
  /-- The value is that of the last occurrence. -/
  value : ∀ option ∈ options, state.value option.name = valueIn settled option.strings
  /-- Options without values have none. -/
  absent : ∀ option ∈ options, option.arity = .absent → valueIn settled option.strings = ""

/-- One more option found changes the position of the option that has its string. -/
theorem positionIn_append (hoption : option ∈ scopedOptions scope)
    (hother : other ∈ scopedOptions scope) (hstring : string ∈ option.strings)
    (value : Option String) :
    positionIn (placed ++ [(⟨string, value⟩, number)]) other.strings =
      if other.name = option.name then number else positionIn placed other.strings := by
  have hmem := mem_strings_iff_name_eq hoption hother hstring
  rw [positionIn, lastIn_append_singleton]
  by_cases hname : other.name = option.name
  · simp [hmem.mpr hname, hname]
  · simp [mt hmem.mp hname, hname, positionIn]

/-- One more option found changes the value of the option that has its string. -/
theorem valueIn_append (hoption : option ∈ scopedOptions scope)
    (hother : other ∈ scopedOptions scope) (hstring : string ∈ option.strings)
    (value : Option String) :
    valueIn (settled ++ [(⟨string, value⟩, number)]) other.strings =
      if other.name = option.name then value.getD "" else valueIn settled other.strings := by
  have hmem := mem_strings_iff_name_eq hoption hother hstring
  rw [valueIn, lastIn_append_singleton]
  by_cases hname : other.name = option.name
  · simp [hmem.mpr hname, hname]
  · simp [mt hmem.mp hname, hname, valueIn]

namespace Keeps

/-- An option is found whose value is not settled yet. -/
theorem await (hkeeps : Keeps (scopedOptions scope) state placed settled)
    (hoption : option ∈ scopedOptions scope) (hstring : string ∈ option.strings)
    (value : Option String) : Keeps (scopedOptions scope) (state.mark option number)
      (placed ++ [(⟨string, value⟩, number)]) settled where
  position other hother := by
    rw [positionIn_append hoption hother hstring, ← hkeeps.position other hother]
    simp [LoopState.mark]
  value := hkeeps.value
  absent := hkeeps.absent

/-- An option is found with its value. -/
theorem give (hkeeps : Keeps (scopedOptions scope) state placed settled)
    (hoption : option ∈ scopedOptions scope) (hstring : string ∈ option.strings)
    (harity : option.arity ≠ .absent) (value : Option String) :
    Keeps (scopedOptions scope) (state.give option number (value.getD ""))
      (placed ++ [(⟨string, value⟩, number)]) (settled ++ [(⟨string, value⟩, number)]) where
  position := (hkeeps.await hoption hstring value).position
  value other hother := by
    rw [valueIn_append hoption hother hstring, ← hkeeps.value other hother]
    simp [LoopState.give]
  absent other hother hflag := by
    have hname : other.name ≠ option.name := by
      intro hname
      rw [eq_of_name_eq hother hoption hname] at hflag
      exact harity hflag
    rw [valueIn_append hoption hother hstring, if_neg hname]
    exact hkeeps.absent other hother hflag

/-- An option is found that has no values. -/
theorem mark (hkeeps : Keeps (scopedOptions scope) state placed settled)
    (hoption : option ∈ scopedOptions scope) (hstring : string ∈ option.strings)
    (harity : option.arity = .absent) :
    Keeps (scopedOptions scope) (state.mark option number)
      (placed ++ [(⟨string, none⟩, number)]) (settled ++ [(⟨string, none⟩, number)]) where
  position := (hkeeps.await hoption hstring none).position
  value other hother := by
    rw [valueIn_append hoption hother hstring, ← hkeeps.value other hother]
    by_cases hname : other.name = option.name
    · obtain rfl := eq_of_name_eq hother hoption hname
      simp [LoopState.mark, hkeeps.value other hother, hkeeps.absent other hother harity]
    · simp [LoopState.mark, hname]
  absent other hother hflag := by
    rw [valueIn_append hoption hother hstring]
    split
    · rfl
    · exact hkeeps.absent other hother hflag

end Keeps

/-! ## The options in one word -/

/-- What reading the options in one word does to the variables, given the word after it. -/
inductive Reads (scope : Scope) (number : Nat) (next : Option String) (state : LoopState)
    (placed : List (Occurrence × Nat)) : WordOptions → LoopState × Bool → Prop
  /-- All values are settled. -/
  | settled {found : List Occurrence} {after : LoopState}
      (hkeeps : Keeps (scopedOptions scope) after (placed ++ found.map (·, number))
        (placed ++ found.map (·, number)))
      (hkept : after.positionals = state.positionals ∧ after.endOfOptions = state.endOfOptions)
      (hargument : after.argumentOf = state.argumentOf) :
      Reads scope number next state placed ⟨found, false⟩ (after, false)
  /-- The last option takes the next word. -/
  | given {before : List Occurrence} {string text : String} {after : LoopState}
      (hnext : next = some text)
      (hkeeps : Keeps (scopedOptions scope) after
        (placed ++ (before ++ [Occurrence.mk string (some text)]).map (·, number))
        (placed ++ (before ++ [Occurrence.mk string (some text)]).map (·, number)))
      (hkept : after.positionals = state.positionals ∧ after.endOfOptions = state.endOfOptions)
      (hargument : after.argumentOf = state.argumentOf) :
      Reads scope number next state placed ⟨before ++ [⟨string, none⟩], true⟩ (after, true)
  /-- The last option waits for its value. -/
  | awaiting {before : List Occurrence} {string : String} {option : ScopedOption}
      {after : LoopState} (hnext : next = none) (hoption : option ∈ scopedOptions scope)
      (hstring : string ∈ option.strings)
      (hkeeps : Keeps (scopedOptions scope) after
        (placed ++ (before ++ [Occurrence.mk string none]).map (·, number))
        (placed ++ before.map (·, number)))
      (hkept : after.positionals = state.positionals ∧ after.endOfOptions = state.endOfOptions)
      (hargument : after.argumentOf = some option.name) :
      Reads scope number next state placed ⟨before ++ [⟨string, none⟩], true⟩ (after, true)

namespace Reads

/-- Reading goes on after an option without values. -/
theorem cons {options : WordOptions} {result : LoopState × Bool} {first : Occurrence}
    (hreads : Reads scope number next (state.mark option number) (placed ++ [(first, number)])
      options result) :
    Reads scope number next state placed { options with found := first :: options.found }
      result := by
  cases hreads with
  | settled hkeeps hkept hargument =>
    exact .settled (by simpa using hkeeps) hkept hargument
  | @given before string text after hnext hkeeps hkept hargument =>
    exact @Reads.given _ _ _ _ _ (first :: before) string text after hnext (by simpa using hkeeps)
      hkept hargument
  | @awaiting before string option after hnext hoption hstring hkeeps hkept hargument =>
    exact @Reads.awaiting _ _ _ _ _ (first :: before) string option after hnext hoption hstring
      (by simpa using hkeeps) hkept hargument

end Reads

/-- What a word does that gives one option, with a value attached or none. -/
def takeOption (state : LoopState) (option : ScopedOption) (attached : Option String) (number : Nat)
    (next : Option String) : LoopState × Bool :=
  match option.arity with
  | .absent => (state.mark option number, false)
  | .optional => (state.give option number (attached.getD ""), false)
  | .required =>
    match attached with
    | some text => (state.give option number text, false)
    | none => (state.giveNext option number next, true)

/-- The case of an option does what the word does. -/
theorem run_give_sourceOf (number : Nat) (word : String) (next : Option String)
    (state : LoopState) (option : ScopedOption) :
    (WordAction.give option (sourceOf option.arity (OptionTable.splitWord word).2)).run number word
      next state = takeOption state option (OptionTable.splitWord word).2 number next := by
  cases harity : option.arity <;> cases hvalue : (OptionTable.splitWord word).2 <;>
    simp [sourceOf, WordAction.run, takeOption, harity, hvalue]

/-- One option in a word is read as the entry of its string. -/
theorem Reads.entry (hkeeps : Keeps (scopedOptions scope) state placed placed)
    (hoption : option ∈ scopedOptions scope) (hstring : string ∈ option.strings)
    (attached : Option String) (number : Nat) (next : Option String) :
    Reads scope number next state placed (OptionTable.readEntry ⟨string, option.arity⟩ attached)
      (takeOption state option attached number next) := by
  cases harity : option.arity with
  | absent =>
    simp only [OptionTable.readEntry, takeOption, harity]
    exact .settled (hkeeps.mark hoption hstring harity) ⟨rfl, rfl⟩ rfl
  | optional =>
    simp only [OptionTable.readEntry, takeOption, harity]
    exact .settled (hkeeps.give hoption hstring (by simp [harity]) attached) ⟨rfl, rfl⟩ rfl
  | required =>
    have hvalued : option.arity ≠ .absent := by simp [harity]
    simp only [OptionTable.readEntry, takeOption, harity]
    cases attached with
    | some text =>
      exact .settled (hkeeps.give hoption hstring hvalued (some text)) ⟨rfl, rfl⟩ rfl
    | none =>
      cases next with
      | some text =>
        exact @Reads.given _ _ _ _ _ [] string text _ rfl
          (hkeeps.give hoption hstring hvalued (some text)) ⟨rfl, rfl⟩ rfl
      | none =>
        have hawait : Keeps (scopedOptions scope)
            (state.giveNext option number none) (placed ++ [(⟨string, none⟩, number)]) placed :=
          ⟨(hkeeps.await hoption hstring none).position, hkeeps.value, hkeeps.absent⟩
        exact @Reads.awaiting _ _ _ _ _ [] string option _ rfl hoption hstring
          (by simpa using hawait) ⟨rfl, rfl⟩ rfl

/-- Stacked letters are read as the table reads them. -/
theorem Reads.letters (hkeeps : Keeps (scopedOptions scope) state placed placed)
    (number : Nat) (next : Option String) (letters : List Char) :
    Reads scope number next state placed (scope.optionTable.readStack letters)
      (readLetters (stackCases (scopedOptions scope)) number next state letters) := by
  induction letters generalizing state placed with
  | nil => exact .settled (by simpa using hkeeps) ⟨rfl, rfl⟩ rfl
  | cons letter rest ih =>
    rw [OptionTable.readStack, readLetters, select?_stackCases]
    cases hfind : (scopedOptions scope).find? (letter ∈ ·.letters) with
    | none =>
      have hnone : ∀ option ∈ scopedOptions scope, letter ∉ option.letters := by
        simpa using hfind
      rw [namedOf?_eq_none hnone]
      exact ih hkeeps
    | some option =>
      have hoption := List.mem_of_find?_eq_some hfind
      have hletter : letter ∈ option.letters := by simpa using List.find?_some hfind
      obtain ⟨hstring, hnamed⟩ := namedOf?_of_mem_letters hoption hletter
      rw [hnamed]
      have htake := Reads.entry hkeeps hoption hstring
        (if rest.isEmpty then none else some (String.ofList rest)) number next
      cases harity : option.arity with
      | absent =>
        simp only [harity]
        exact (ih (hkeeps.mark hoption hstring harity)).cons
      | _ =>
        -- Options with values end the word, whether a value follows the letter or not.
        simp only [OptionTable.readEntry, takeOption, harity] at htake ⊢
        cases rest with
        | nil => exact htake
        | cons second rest => exact htake

/-- Reading a word whose case is known. -/
theorem readWord_of_select? {cases : List (Case WordAction)} {action : WordAction}
    (hgoing : state.endOfOptions = false) (hplain : OptionTable.isPlainWord word = false)
    (hselect : Case.select? cases word = some action) :
    readWord cases number next state word = action.run number word next state := by
  simp [readWord, hgoing, hplain, hselect]

/-- Options in a word are read as the table reads them. -/
theorem Reads.optionWord
    (hequals : ∀ option ∈ scopedOptions scope, ∀ spelling ∈ option.words, '=' ∉ spelling.toList)
    (hkeeps : Keeps (scopedOptions scope) state placed placed) (hgoing : state.endOfOptions = false)
    (hplain : OptionTable.isPlainWord word = false) (hend : (word == "--") = false)
    (number : Nat) (next : Option String) :
    Reads scope number next state placed (scope.optionTable.readOptionWord word)
      (readWord (loopCases (scopedOptions scope)) number next state word) := by
  rw [readWord_of_select? hgoing hplain (select?_loopCases hequals hend)]
  cases hfind : (scopedOptions scope).find? ((OptionTable.splitWord word).1 ∈ ·.words) with
  | some option =>
    have hoption := List.mem_of_find?_eq_some hfind
    have hname : (OptionTable.splitWord word).1 ∈ option.words := by
      simpa using List.find?_some hfind
    obtain ⟨string, hstring, hword⟩ := readOptionWord_of_mem_words hoption hname
    rw [hword]
    change Reads _ _ _ _ _ _ ((WordAction.give option _).run number word next state)
    rw [run_give_sourceOf]
    exact Reads.entry hkeeps hoption hstring _ number next
  | none =>
    have hnone : ∀ option ∈ scopedOptions scope,
        (OptionTable.splitWord word).1 ∉ option.words := by
      simpa using hfind
    rw [readOptionWord_of_forall_notMem hnone]
    by_cases hdashes : Text.beginsWith word "--" = true
    · simp only [hdashes, ↓reduceIte]
      exact .settled (by simpa using hkeeps) ⟨rfl, rfl⟩ rfl
    · simp only [hdashes, Bool.false_eq_true, ↓reduceIte]
      exact Reads.letters hkeeps number next _

/-! ## The whole line -/

/-- The variables of the loop say of a command line what the table finds on it. -/
structure Represents (scope : Scope) (state : LoopState) (words : List String) : Prop where
  /-- The positional words are the same. -/
  positionals : state.positionals = (scope.optionTable.parseLine words).positionals
  /-- Options have ended for both. -/
  endOfOptions : state.endOfOptions = true ↔
    (scope.optionTable.readerAfter words).expecting = .positional
  /-- The variables of options are those of the options found. -/
  keeps : Keeps (scopedOptions scope) state (scope.optionTable.placedOptions words)
    (scope.optionTable.settledOptions words)
  /-- The option whose value is being typed is that of the last occurrence. -/
  argumentOf : ∀ option ∈ scopedOptions scope, state.argumentOf = some option.name ↔
    (scope.optionTable.readerAfter words).expecting = .value ∧
      ∃ last ∈ (scope.optionTable.placedOptions words).getLast?, last.1.option ∈ option.strings

namespace Represents

/-- The loop starts with nothing found. -/
theorem nil (scope : Scope) : Represents scope {} [] where
  positionals := rfl
  endOfOptions := by simp [OptionTable.readerAfter]
  keeps := ⟨fun _ _ => rfl, fun _ _ => rfl, fun _ _ _ => rfl⟩
  argumentOf _ _ := by simp [OptionTable.readerAfter]

/-- No option waits for its value as long as the table does not. -/
theorem argumentOf_ne (hrep : Represents scope state words)
    (hvalue : (scope.optionTable.readerAfter words).expecting ≠ .value)
    (hoption : option ∈ scopedOptions scope) : state.argumentOf ≠ some option.name :=
  fun hargument => hvalue ((hrep.argumentOf option hoption).mp hargument).1

/-- As long as no option waits for its value, all values are settled. -/
theorem keeps_placed (hrep : Represents scope state words)
    (hvalue : (scope.optionTable.readerAfter words).expecting ≠ .value) :
    Keeps (scopedOptions scope) state (scope.optionTable.placedOptions words)
      (scope.optionTable.placedOptions words) := by
  have hkeeps := hrep.keeps
  rwa [OptionTable.settledOptions, if_neg hvalue] at hkeeps

/-- Words are read after which no option waits for its value. -/
theorem advance (hrep : Represents scope state words)
    (hvalue : (scope.optionTable.readerAfter words).expecting ≠ .value)
    (hnext : (scope.optionTable.readerAfter (words ++ more)).expecting ≠ .value)
    (hplaced : scope.optionTable.placedOptions (words ++ more) =
      scope.optionTable.placedOptions words ++ found.map (·, number))
    (hkeeps : Keeps (scopedOptions scope) after
      (scope.optionTable.placedOptions words ++ found.map (·, number))
      (scope.optionTable.placedOptions words ++ found.map (·, number)))
    (hpositionals : after.positionals = (scope.optionTable.parseLine (words ++ more)).positionals)
    (hends : after.endOfOptions = true ↔
      (scope.optionTable.readerAfter (words ++ more)).expecting = .positional)
    (hargument : after.argumentOf = state.argumentOf) :
    Represents scope after (words ++ more) where
  positionals := hpositionals
  endOfOptions := hends
  keeps := by rwa [OptionTable.settledOptions, if_neg hnext, hplaced]
  argumentOf option hoption := by
    rw [hargument]
    exact iff_of_false (hrep.argumentOf_ne hvalue hoption) fun h => hnext h.1

end Represents

/-- What reading one word before a next one leads to. -/
inductive Advances (scope : Scope) (words : List String) (word : String) (next : Option String) :
    LoopState × Bool → Prop
  /-- The word is read and the next one may be anything. -/
  | alone {after : LoopState} (hrep : Represents scope after (words ++ [word]))
      (hvalue : (scope.optionTable.readerAfter (words ++ [word])).expecting ≠ .value) :
      Advances scope words word next (after, false)
  /-- The next word is read with it. -/
  | withNext {after : LoopState} {text : String} (hnext : next = some text)
      (hrep : Represents scope after (words ++ [word, text]))
      (hvalue : (scope.optionTable.readerAfter (words ++ [word, text])).expecting ≠ .value) :
      Advances scope words word next (after, true)
  /-- An option waits for its value where the words end. -/
  | waiting {after : LoopState} (hnext : next = none)
      (hrep : Represents scope after (words ++ [word])) :
      Advances scope words word next (after, true)

namespace Represents

/-- A word without options is read. -/
theorem readNoOptions (hrep : Represents scope state words)
    (hvalue : (scope.optionTable.readerAfter words).expecting ≠ .value)
    (hstep : scope.optionTable.step (scope.optionTable.readerAfter words) word = reader)
    (hoccurrences : reader.line.occurrences =
      (scope.optionTable.readerAfter words).line.occurrences)
    (hnext : reader.expecting ≠ .value)
    (hpositionals : after.positionals = reader.line.positionals)
    (hends : after.endOfOptions = true ↔ reader.expecting = .positional)
    (hposition : after.position = state.position) (hvalues : after.value = state.value)
    (hargument : after.argumentOf = state.argumentOf) :
    Represents scope after (words ++ [word]) ∧
      (scope.optionTable.readerAfter (words ++ [word])).expecting ≠ .value := by
  obtain rfl : scope.optionTable.readerAfter (words ++ [word]) = reader := by
    rw [OptionTable.readerAfter_append, ← hstep]
    rfl
  have hplaced : scope.optionTable.placedOptions (words ++ [word]) =
      scope.optionTable.placedOptions words ++ [].map (·, words.length + 1) :=
    OptionTable.placedOptions_append_singleton (by simpa using hoccurrences)
  have hkeeps := hrep.keeps_placed hvalue
  refine ⟨hrep.advance hvalue hnext hplaced ?_ hpositionals hends hargument, hnext⟩
  rw [List.map_nil, List.append_nil]
  exact ⟨hposition ▸ hkeeps.position, hvalues ▸ hkeeps.value, hkeeps.absent⟩

/-- A positional word is read. -/
theorem readPositional (hrep : Represents scope state words)
    (hvalue : (scope.optionTable.readerAfter words).expecting ≠ .value)
    (hpositional : (scope.optionTable.readerAfter words).expecting = .positional ∨
      OptionTable.isPlainWord word = true) :
    Represents scope (state.addPositional word) (words ++ [word]) ∧
      (scope.optionTable.readerAfter (words ++ [word])).expecting ≠ .value := by
  have hstep : scope.optionTable.step (scope.optionTable.readerAfter words) word =
      { scope.optionTable.readerAfter words with
        line := (scope.optionTable.readerAfter words).line.addPositional word } := by
    rw [OptionTable.step]
    cases hexpecting : (scope.optionTable.readerAfter words).expecting with
    | value => exact absurd hexpecting hvalue
    | positional => simp [hexpecting]
    | anything => simp [hexpecting, hpositional.resolve_left (by simp [hexpecting])]
  exact hrep.readNoOptions hvalue hstep rfl hvalue (congrArg (· ++ [word]) hrep.positionals)
    hrep.endOfOptions rfl rfl rfl

/-- The word that ends the options is read. -/
theorem readEnd (hrep : Represents scope state words)
    (hexpecting : (scope.optionTable.readerAfter words).expecting = .anything) :
    Represents scope { state with endOfOptions := true } (words ++ ["--"]) ∧
      (scope.optionTable.readerAfter (words ++ ["--"])).expecting ≠ .value := by
  have hstep : scope.optionTable.step (scope.optionTable.readerAfter words) "--" =
      { scope.optionTable.readerAfter words with expecting := .positional } := by
    rw [OptionTable.step, hexpecting]
    rfl
  exact hrep.readNoOptions (by simp [hexpecting]) hstep rfl (by simp) hrep.positionals (by simp)
    rfl rfl rfl

/-- A word with options is read. -/
theorem readOptions (hrep : Represents scope state words)
    (hexpecting : (scope.optionTable.readerAfter words).expecting = .anything)
    (hgoing : state.endOfOptions = false)
    (hplain : OptionTable.isPlainWord word = false) (hend : (word == "--") = false)
    {result : LoopState × Bool}
    (hreads : Reads scope (words.length + 1) next state (scope.optionTable.placedOptions words)
      (scope.optionTable.readOptionWord word) result) :
    Advances scope words word next result := by
  have hvalue : (scope.optionTable.readerAfter words).expecting ≠ .value := by simp [hexpecting]
  have hstep : scope.optionTable.step (scope.optionTable.readerAfter words) word =
      ⟨(scope.optionTable.readerAfter words).line.addOptions
          (scope.optionTable.readOptionWord word).found,
        if (scope.optionTable.readOptionWord word).waits then .value else .anything⟩ := by
    simp [OptionTable.step, hexpecting, hplain, hend]
  have hword := scope.optionTable.readerAfter_append words [word]
  rw [List.foldl_cons, List.foldl_nil, hstep] at hword
  generalize scope.optionTable.readOptionWord word = options at hreads hstep hword
  cases hreads with
  | settled hkeeps hkept hargument =>
    have hnext : (scope.optionTable.readerAfter (words ++ [word])).expecting ≠ .value := by
      simp [hword]
    have hplaced := OptionTable.placedOptions_append_singleton (congrArg (·.line.occurrences) hword)
    refine .alone (hrep.advance hvalue hnext hplaced hkeeps ?_ ?_ hargument) hnext
    · exact hkept.1.trans (hrep.positionals.trans (congrArg (·.line.positionals) hword).symm)
    · simp [hkept.2, hgoing, hword]
  | @given before string text after htext hkeeps hkept hargument =>
    have hboth := scope.optionTable.readerAfter_append words [word, text]
    rw [List.foldl_cons, List.foldl_cons, List.foldl_nil, hstep] at hboth
    simp only [OptionTable.step, ↓reduceIte, ParsedLine.giveValue_addOptions] at hboth
    have hnext : (scope.optionTable.readerAfter (words ++ [word, text])).expecting ≠ .value := by
      simp [hboth]
    have hplaced := OptionTable.placedOptions_append_pair
      (by rw [hstep]; simp [ParsedLine.addOptions]) (congrArg (·.line.occurrences) hboth)
    refine .withNext htext (hrep.advance hvalue hnext hplaced hkeeps ?_ ?_ hargument) hnext
    · exact hkept.1.trans (hrep.positionals.trans (congrArg (·.line.positionals) hboth).symm)
    · simp [hkept.2, hgoing, hboth]
  | @awaiting before string option after htext hoption hstring hkeeps hkept hargument =>
    have hplaced := OptionTable.placedOptions_append_singleton (congrArg (·.line.occurrences) hword)
    have hwaits : (scope.optionTable.readerAfter (words ++ [word])).expecting = .value := by
      simp [hword]
    refine .waiting htext ⟨?_, ?_, ?_, ?_⟩
    · exact hkept.1.trans (hrep.positionals.trans (congrArg (·.line.positionals) hword).symm)
    · simp [hkept.2, hgoing, hword]
    · rw [OptionTable.settledOptions, if_pos hwaits, hplaced]
      simpa using hkeeps
    · intro other hother
      rw [hargument, hplaced]
      simpa [hwaits, eq_comm] using (mem_strings_iff_name_eq hoption hother hstring).symm

/-- A word is read where options may stand or have ended. -/
theorem readWord
    (hequals : ∀ option ∈ scopedOptions scope, ∀ spelling ∈ option.words, '=' ∉ spelling.toList)
    (hrep : Represents scope state words)
    (hvalue : (scope.optionTable.readerAfter words).expecting ≠ .value)
    (word : String) (next : Option String) : Advances scope words word next
      (Bash.readWord (loopCases (scopedOptions scope)) (words.length + 1) next state word) := by
  by_cases hpositional : (scope.optionTable.readerAfter words).expecting = .positional ∨
      OptionTable.isPlainWord word = true
  · obtain ⟨hword, hnext⟩ := hrep.readPositional hvalue hpositional
    have hread : (state.endOfOptions || OptionTable.isPlainWord word) = true := by
      simpa [hrep.endOfOptions] using hpositional
    rw [Bash.readWord, if_pos hread]
    exact .alone hword hnext
  · obtain ⟨hgoing, hplain⟩ := not_or.mp hpositional
    have hexpecting : (scope.optionTable.readerAfter words).expecting = .anything := by
      cases hreader : (scope.optionTable.readerAfter words).expecting with
      | value => exact absurd hreader hvalue
      | positional => exact absurd hreader hgoing
      | anything => rfl
    rw [← hrep.endOfOptions, Bool.not_eq_true] at hgoing
    rw [Bool.not_eq_true] at hplain
    by_cases hend : word = "--"
    · subst hend
      obtain ⟨hword, hnext⟩ := hrep.readEnd hexpecting
      rw [readWord_of_select? hgoing hplain (select?_loopCases_end _)]
      exact .alone hword hnext
    · have hne : (word == "--") = false := by simpa using hend
      exact hrep.readOptions hexpecting hgoing hplain hne
        (Reads.optionWord hequals (hrep.keeps_placed hvalue) hgoing hplain hne _ next)

/-- The rest of the words is read. -/
theorem readFrom
    (hequals : ∀ option ∈ scopedOptions scope, ∀ spelling ∈ option.words, '=' ∉ spelling.toList)
    (hrep : Represents scope state words)
    (hvalue : (scope.optionTable.readerAfter words).expecting ≠ .value)
    (hnumber : number = words.length + 1) (rest : List String) :
    Represents scope (Bash.readFrom (loopCases (scopedOptions scope)) number state rest)
      (words ++ rest) := by
  fun_induction Bash.readFrom (loopCases (scopedOptions scope)) number state rest
    generalizing words with
  | case1 => simpa using hrep
  | case2 number state word =>
    subst hnumber
    generalize hresult : Bash.readWord _ _ _ _ _ = result
    have hword := hresult ▸ hrep.readWord hequals hvalue word none
    cases hword with
    | alone hrep hvalue => exact hrep
    | waiting hnext hrep => exact hrep
    | withNext hnext hrep hvalue => cases hnext
  | case3 number state word next rest after hresult ih =>
    subst hnumber
    have hword := hresult ▸ hrep.readWord hequals hvalue word (some next)
    cases hword with
    | waiting hnext hrep => cases hnext
    | withNext hnext hrep hvalue =>
      cases hnext
      simpa using ih hrep hvalue (by simp)
  | case4 number state word next rest after hresult ih =>
    subst hnumber
    have hword := hresult ▸ hrep.readWord hequals hvalue word (some next)
    cases hword with
    | alone hrep hvalue => simpa using ih hrep hvalue (by simp)

/-- After the words before the cursor the variables say what the table finds. -/
theorem readWords
    (hequals : ∀ declared ∈ scope.knownOptions, ∀ string ∈ declared.option.strings,
      '=' ∉ string.toList) (words : List String) :
    Represents scope (Bash.readWords (scopedOptions scope) words) words := by
  refine readFrom (fun option hoption spelling hspelling hmem => ?_) (nil scope) nofun rfl words
  obtain ⟨token, htoken, -, hspells⟩ := (mem_words hoption).mp hspelling
  have hdeclared := Scope.mem_of_owner? (owner?_of_mem_strings hoption htoken)
  exact hequals _ hdeclared.1 token hdeclared.2 (hspells.prefix_and_length.1.subset hmem)

end Represents

/-- The variables that say of a command line what the table finds on it. -/
def LoopState.ofLine (scope : Scope) (words : List String) : LoopState where
  positionals := (scope.optionTable.parseLine words).positionals
  endOfOptions := decide ((scope.optionTable.readerAfter words).expecting = .positional)
  argumentOf :=
    if (scope.optionTable.readerAfter words).expecting = .value then do
      let last ← (scope.optionTable.placedOptions words).getLast?
      let option ← ownerOf? (scopedOptions scope) last.1.option
      pure option.name
    else none
  position name :=
    match (scopedOptions scope).find? (·.name == name) with
    | some option => positionIn (scope.optionTable.placedOptions words) option.strings
    | none => 0
  value name :=
    match (scopedOptions scope).find? (·.name == name) with
    | some option => valueIn (scope.optionTable.settledOptions words) option.strings
    | none => ""

/-- An option without values is a flag in the table. -/
theorem isFlag_iff (hoption : option ∈ scopedOptions scope) (hstring : string ∈ option.strings) :
    scope.optionTable.IsFlag string ↔ option.arity = .absent := by
  have hnamed : scope.optionTable.named? string = some ⟨string, option.arity⟩ := by
    rw [Scope.named?_optionTable, owner?_of_mem_strings hoption hstring]
    rfl
  simp [OptionTable.IsFlag, hnamed]

/-- Such variables are there for every command line. -/
theorem represents_ofLine (scope : Scope) (words : List String) :
    Represents scope (.ofLine scope words) words := by
  have hnamed : ∀ option ∈ scopedOptions scope,
      (scopedOptions scope).find? (·.name == option.name) = some option := by
    intro option hoption
    obtain ⟨found, hfound⟩ := Option.isSome_iff_exists.mp (List.find?_isSome (p :=
      fun other : ScopedOption => other.name == option.name).mpr ⟨option, hoption, by simp⟩)
    have hname : found.name = option.name := by simpa using List.find?_some hfound
    rw [hfound, eq_of_name_eq (List.mem_of_find?_eq_some hfound) hoption hname]
  refine ⟨rfl, decide_eq_true_iff, ⟨fun option hoption => ?_, fun option hoption => ?_,
    fun option hoption harity => ?_⟩, fun option hoption => ?_⟩
  · simp [LoopState.ofLine, hnamed option hoption]
  · simp [LoopState.ofLine, hnamed option hoption]
  · exact OptionTable.valueIn_eq_empty fun string hstring => (isFlag_iff hoption hstring).mpr harity
  · rw [LoopState.ofLine]
    split
    · rename_i hvalue
      rw [and_iff_right hvalue]
      change Option.bind _ _ = some option.name ↔ _
      rw [Option.bind_eq_some_iff]
      refine exists_congr fun last => and_congr_right fun _ => ?_
      change Option.bind _ _ = some option.name ↔ _
      simp only [Option.bind_eq_some_iff, ownerOf?_eq_some_iff]
      constructor
      · rintro ⟨other, ⟨hother, howner⟩, hname⟩
        rw [← eq_of_name_eq hother hoption (Option.some.inj hname)]
        exact (mem_strings_iff hother).mpr howner
      · intro hmem
        exact ⟨option, ⟨hoption, owner?_of_mem_strings hoption hmem⟩, rfl⟩
    · rename_i hvalue
      exact iff_of_false nofun fun h => hvalue h.1

end Bash

/-- The reading loop of a command finds the positional words that its table finds. It marks
the options as given that are on the line, and keeps the last value of each, except for the
last option on the line while its value is being typed, which it remembers as such. -/
theorem CommandTree.readWords_scopedOptions (tree : CommandTree) (config : Config) (node : Nat)
    (hequals : ∀ declared ∈ (tree.scope config node).knownOptions,
      ∀ string ∈ declared.option.strings, '=' ∉ string.toList) (words : List String) :
    let table := (tree.scope config node).optionTable
    let line := table.parseLine words
    let options := Bash.scopedOptions (tree.scope config node)
    let state := Bash.readWords options words
    state.positionals = line.positionals ∧
      ∀ option ∈ options,
        (state.position option.name ≠ 0 ↔ line.hasOption option.strings = true) ∧
        (state.argumentOf ≠ some option.name →
          state.value option.name = ((line.lastOf? option.strings).bind (·.value)).getD "") ∧
        (state.argumentOf = some option.name ↔
          (table.readerAfter words).expecting = .value ∧
            ∃ last ∈ line.occurrences.getLast?, last.option ∈ option.strings) := by
  intro table line options state
  have hrep : Bash.Represents (tree.scope config node) state words :=
    Bash.Represents.readWords hequals words
  refine ⟨hrep.positionals, fun option hoption => ⟨?_, fun hargument => ?_, ?_⟩⟩
  · rw [hrep.keeps.position option hoption]
    exact OptionTable.positionIn_ne_zero_iff
  · rw [hrep.keeps.value option hoption]
    refine OptionTable.valueIn_settledOptions fun hvalue last hlast hmem => ?_
    exact hargument ((hrep.argumentOf option hoption).mpr ⟨hvalue, last, hlast, hmem⟩)
  · rw [hrep.argumentOf option hoption]
    have hoccurrences : line.occurrences.getLast? =
        (table.placedOptions words).getLast?.map (·.1) := by
      rw [← List.getLast?_map, OptionTable.map_fst_placedOptions]
    simp [hoccurrences, table]

/-- The premise holds of a subcommand with a flag below a program with an option that has a
value. On this line the two are stacked, and a second value is being typed. -/
theorem CommandTree.readWords_scopedOptions_stacked :
    let tree := withHeir
      [{ CommandOption.ofStrings ["-o", "--output"] (by decide) with arity := .required }]
      [CommandOption.ofStrings ["-v"] (by decide)]
    let words := ["-vo", "file", "sub", "--output"]
    let table := (tree.scope {} 1).optionTable
    let line := table.parseLine words
    let options := Bash.scopedOptions (tree.scope {} 1)
    let state := Bash.readWords options words
    (∀ declared ∈ (tree.scope {} 1).knownOptions,
      ∀ string ∈ declared.option.strings, '=' ∉ string.toList) ∧
    state.positionals = line.positionals ∧
      ∀ option ∈ options,
        (state.position option.name ≠ 0 ↔ line.hasOption option.strings = true) ∧
        (state.argumentOf ≠ some option.name →
          state.value option.name = ((line.lastOf? option.strings).bind (·.value)).getD "") ∧
        (state.argumentOf = some option.name ↔
          (table.readerAfter words).expecting = .value ∧
            ∃ last ∈ line.occurrences.getLast?, last.option ∈ option.strings) := by
  intro tree words table line options state
  have hequals : ∀ declared ∈ (tree.scope {} 1).knownOptions,
      ∀ string ∈ declared.option.strings, '=' ∉ string.toList := by
    decide +kernel
  exact ⟨hequals, readWords_scopedOptions tree {} 1 hequals words⟩

end ShellCompletion
