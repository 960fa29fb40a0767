import ShellCompletion.Proofs.CommandLine.Values

/-!
# The parts of a command line

Every word of a command line is used once: as a positional word, as a word with options, as
the value of the option before it, or as the end of the options. What is found on the line is
what its parts hold.
-/

namespace ShellCompletion

/-- A part of a command line. -/
inductive LinePart where
  /-- A positional word. -/
  | positional (word : String)
  /-- A word with options, which are none if none of them is known, and the next word if that is
  the value of the last one. -/
  | options (word : String) (found : List Occurrence) (next : Option String)
  /-- The two dashes that end the options. -/
  | endOfOptions
deriving Repr, DecidableEq

namespace LinePart

/-- The words of a part. -/
def words : LinePart → List String
  | positional word => [word]
  | options word _ next => word :: next.toList
  | endOfOptions => ["--"]

/-- The positional words of a part. -/
def positionals : LinePart → List String
  | positional word => [word]
  | options _ _ _ | endOfOptions => []

/-- The options of a part. -/
def occurrences : LinePart → List Occurrence
  | options _ found _ => found
  | positional _ | endOfOptions => []

/-- The positional words of a part are among its words. -/
theorem positionals_sublist (part : LinePart) : part.positionals.Sublist part.words := by
  cases part with
  | positional word => exact List.Sublist.refl _
  | options word found next => exact List.nil_sublist _
  | endOfOptions => exact List.nil_sublist _

/-- The positional words of several parts are among their words. -/
theorem flatMap_positionals_sublist (parts : List LinePart) :
    (parts.flatMap positionals).Sublist (parts.flatMap words) := by
  induction parts with
  | nil => exact List.Sublist.refl _
  | cons part rest ih => exact part.positionals_sublist.append ih

end LinePart

namespace OptionTable

variable {table : OptionTable} {parts front rest : List LinePart}
  {found before after : List Occurrence} {last : Occurrence} {words : List String} {word : String}
  {final : Prop}

/-- The parts of a command line. -/
def partsOf (table : OptionTable) : List String → List LinePart
  | [] => []
  | word :: rest =>
    if isPlainWord word then .positional word :: table.partsOf rest
    else if word = "--" then .endOfOptions :: rest.map .positional
    else
      let options := table.readOptionWord word
      match options.waits, rest with
      | true, value :: rest =>
        .options word ((ParsedLine.mk [] options.found).giveValue value).occurrences (some value) ::
          table.partsOf rest
      | _, rest => .options word options.found none :: table.partsOf rest

/-- An option word holds the options that it gives by itself, each with an entry and with a value as
the entry asks for. The next word belongs to it exactly if the last of its options has to have a
value and has none in the word; that has no value only if the line ends there. -/
structure Holds (table : OptionTable) (word : String) (found : List Occurrence)
    (next : Option String) (final : Prop) : Prop where
  /-- The word is no positional one. -/
  dashed : isPlainWord word = false
  /-- The word does not end the options. -/
  ne_end : word ≠ "--"
  /-- The options are those that the word gives by itself. -/
  options : found.map (·.option) = (table.readOptionWord word).found.map (·.option)
  /-- Every option has an entry and a value as the entry asks for. -/
  values : table.ValuesFrom word (fun value => value = next ∧ (next = none → final)) found
  /-- The next word is the value of the last option, which has to have one and has none in the
  word. -/
  separate : ∀ text ∈ next, table.Unanswered (table.readOptionWord word).found ∧
    ∃ last ∈ found.getLast?, last.value = some text

/-- The parts of a line are as the table asks for: options are read up to the end of the options,
and all words behind that are positional. -/
def Accounts (table : OptionTable) : List LinePart → Prop
  | [] => True
  | .positional word :: rest => isPlainWord word = true ∧ table.Accounts rest
  | .options word found next :: rest =>
    table.Holds word found next (rest = []) ∧ table.Accounts rest
  | .endOfOptions :: rest => ∀ part ∈ rest, ∃ word, part = .positional word

/-- Every word of a line is in one part, in the order of the line. -/
theorem flatMap_words_partsOf (table : OptionTable) (words : List String) :
    (table.partsOf words).flatMap LinePart.words = words := by
  fun_induction partsOf table words with
  | case1 => rfl
  | case2 word rest _ ih => rw [List.flatMap_cons, ih]; rfl
  | case3 rest => simp [List.flatMap_map, LinePart.words]
  | case4 word _ _ options value rest _ ih => rw [List.flatMap_cons, ih]; rfl
  | case5 word _ _ options rest _ ih => rw [List.flatMap_cons, ih]; rfl

/-- What is found on a line is what its parts hold. -/
theorem parseLine_eq_partsOf (table : OptionTable) (words : List String) :
    table.parseLine words = ⟨(table.partsOf words).flatMap LinePart.positionals,
      (table.partsOf words).flatMap LinePart.occurrences⟩ := by
  fun_induction partsOf table words with
  | case1 => rfl
  | case2 word rest hplain ih =>
    have hread : table.readerAfter [word] = ⟨⟨[word], []⟩, .anything⟩ := by
      simp [readerAfter, step, hplain, ParsedLine.addPositional]
    exact (parseLine_append_of_anything hread rest).trans (by rw [ih]; rfl)
  | case3 rest hplain =>
    have hread : table.step {} "--" = ⟨{}, .positional⟩ := rfl
    rw [parseLine, List.foldl_cons, hread, foldl_positional]
    simp [ParsedLine.append, List.flatMap_map, LinePart.positionals, LinePart.occurrences]
  | case4 word hplain hend options value rest hwaits ih =>
    have hread : table.readerAfter [word, value] =
        ⟨(ParsedLine.mk [] options.found).giveValue value, .anything⟩ := by
      simp [readerAfter, step, hplain, hend, hwaits, ParsedLine.addOptions, options]
    refine (parseLine_append_of_anything hread rest).trans ?_
    rw [ih, ParsedLine.append, ParsedLine.positionals_giveValue]
    rfl
  | case5 word hplain hend options rest hsettled ih =>
    have hread : table.readerAfter [word] =
        ⟨⟨[], options.found⟩, if options.waits then .value else .anything⟩ := by
      simp [readerAfter, step, hplain, hend, ParsedLine.addOptions, options]
    cases hwaits : options.waits with
    | false =>
      rw [hwaits] at hread
      exact (parseLine_append_of_anything hread rest).trans (by rw [ih]; rfl)
    | true =>
      -- Only the last word of a line can wait for nothing.
      cases rest with
      | nil =>
        refine (congrArg LineReader.line hread).trans ?_
        simp [partsOf, LinePart.positionals, LinePart.occurrences]
      | cons value after => exact (hsettled value after hwaits rfl).elim

/-- An option word that no other word belongs to holds its options. -/
theorem holds_readOptionWord (hplain : isPlainWord word = false) (hend : word ≠ "--")
    (hfinal : (table.readOptionWord word).waits = true → final) :
    table.Holds word (table.readOptionWord word).found none final where
  dashed := hplain
  ne_end := hend
  options := rfl
  values := (table.valuesFrom_readOptionWord hplain).imp fun _ hnone =>
    ⟨hnone.1, fun _ => hfinal hnone.2⟩
  separate := nofun

/-- An option word that waits for a value holds its options and the next word. -/
theorem holds_giveValue (hplain : isPlainWord word = false) (hend : word ≠ "--")
    (hwaits : (table.readOptionWord word).waits = true) (value : String) :
    table.Holds word
      ((ParsedLine.mk [] (table.readOptionWord word).found).giveValue value).occurrences
      (some value) final := by
  have hmissing := (table.waits_readOptionWord word).mp hwaits
  obtain ⟨last, hlast, -, hrequires⟩ := id hmissing
  obtain ⟨earlier, hfound⟩ := List.getLast?_eq_some_iff.mp hlast
  -- The value goes to the option that was found last and had none.
  have hvalues := table.valuesFrom_readOptionWord hplain
  rw [hfound] at hvalues
  have hline : (ParsedLine.mk [] (table.readOptionWord word).found).occurrences =
      earlier ++ [last] := hfound
  rw [ParsedLine.giveValue_of_occurrences hline]
  exact {
    dashed := hplain
    ne_end := hend
    options := by simp [hfound]
    values := (hvalues.give hrequires value).imp fun _ hvalue => ⟨hvalue, nofun⟩
    separate := fun text htext => ⟨hmissing, _, List.getLast?_concat .., htext⟩ }

/-- The parts of a line are as the table asks for. -/
theorem accounts_partsOf (table : OptionTable) (words : List String) :
    table.Accounts (table.partsOf words) := by
  fun_induction partsOf table words with
  | case1 => trivial
  | case2 word rest hplain ih => exact ⟨hplain, ih⟩
  | case3 rest =>
    intro part hpart
    obtain ⟨word, -, rfl⟩ := List.mem_map.mp hpart
    exact ⟨word, rfl⟩
  | case4 word hplain hend options value rest hwaits ih =>
    exact ⟨holds_giveValue (Bool.eq_false_iff.mpr hplain) hend hwaits value, ih⟩
  | case5 word hplain hend options rest hsettled ih =>
    refine ⟨holds_readOptionWord (Bool.eq_false_iff.mpr hplain) hend fun hwaits => ?_, ih⟩
    cases rest with
    | nil => rfl
    | cons value after => exact (hsettled value after hwaits rfl).elim

/-- A word of options holds them as the table asks for, whatever parts are before it. -/
theorem Accounts.holds {next : Option String}
    (haccounts : table.Accounts (front ++ .options word found next :: rest)) :
    table.Holds word found next (rest = []) := by
  induction front with
  | nil => exact haccounts.1
  | cons part front ih =>
    cases part with
    | positional _ => exact ih haccounts.2
    | options _ _ _ => exact ih haccounts.2
    | endOfOptions =>
      obtain ⟨_, hpart⟩ := haccounts (.options word found next) (by simp)
      cases hpart

/-- An option found on a line is in one of its parts. -/
theorem exists_options_of_flatMap_eq
    (hfound : parts.flatMap LinePart.occurrences = before ++ last :: after) :
    ∃ front word earlier later next rest,
      parts = front ++ .options word (earlier ++ last :: later) next :: rest ∧
        after = later ++ rest.flatMap LinePart.occurrences := by
  induction parts generalizing before with
  | nil => simp at hfound
  | cons part parts ih =>
    have hlater : ∀ before, parts.flatMap LinePart.occurrences = before ++ last :: after →
        ∃ front word earlier later next rest,
          part :: parts = front ++ .options word (earlier ++ last :: later) next :: rest ∧
            after = later ++ rest.flatMap LinePart.occurrences := by
      intro before hrest
      obtain ⟨front, word, earlier, later, next, rest, rfl, hafter⟩ := ih hrest
      exact ⟨part :: front, word, earlier, later, next, rest, rfl, hafter⟩
    cases part with
    | positional word => exact hlater before hfound
    | endOfOptions => exact hlater before hfound
    | options word found next =>
      rcases List.append_eq_append_iff.mp hfound with ⟨more, -, hrest⟩ | ⟨own, hown, hrest⟩
      · exact hlater more hrest
      · cases own with
        | nil => exact hlater [] hrest.symm
        | cons first later =>
          obtain ⟨rfl, hafter⟩ := List.cons.inj hrest
          have hown : found = before ++ last :: later := hown
          subst hown
          exact ⟨[], word, before, later, next, parts, rfl, hafter⟩

/-- Every word of a line is used once, and arities are respected. The words fall into parts: the
positional words, the words with options, some of them with the next word as a value, and the two
dashes that end the options. What is found is what these hold. Every option found has an entry. It
has no value if that takes none, and an optional value is attached to it. A required value is
attached to it or is the next word, and is missing only if the option is the last one and its word
ends the line. -/
theorem parseLine_parts (table : OptionTable) (words : List String) :
    let line := table.parseLine words
    let parts := table.partsOf words
    parts.flatMap LinePart.words = words ∧
    line = ⟨parts.flatMap LinePart.positionals, parts.flatMap LinePart.occurrences⟩ ∧
    line.positionals.Sublist words ∧
    table.Accounts parts ∧
    ∀ before last after, line.occurrences = before ++ last :: after →
      ∃ front word earlier later next rest entry,
        parts = front ++ .options word (earlier ++ last :: later) next :: rest ∧
        table.named? last.option = some entry ∧
        ValueFrom word entry last.value
          (later = [] ∧ last.value = next ∧ (next = none → after = [] ∧ rest = [])) := by
  intro line parts
  have hwords : parts.flatMap LinePart.words = words := table.flatMap_words_partsOf words
  have hline : line = ⟨parts.flatMap LinePart.positionals, parts.flatMap LinePart.occurrences⟩ :=
    table.parseLine_eq_partsOf words
  have haccounts : table.Accounts parts := table.accounts_partsOf words
  refine ⟨hwords, hline, ?_, haccounts, fun before last after hfound => ?_⟩
  · rw [hline, ← hwords]
    exact LinePart.flatMap_positionals_sublist parts
  · rw [hline] at hfound
    obtain ⟨front, word, earlier, later, next, rest, hparts, rfl⟩ :=
      exists_options_of_flatMap_eq hfound
    rw [hparts] at haccounts
    obtain ⟨entry, hnamed, hvalue⟩ := haccounts.holds.values.exists_entry
    refine ⟨front, word, earlier, later, next, rest, entry, hparts, hnamed, hvalue.imp ?_⟩
    rintro ⟨rfl, hnext, hfinal⟩
    refine ⟨rfl, hnext, fun hnone => ?_⟩
    obtain rfl := hfinal hnone
    exact ⟨rfl, rfl⟩

/-- A stack takes the next word as the value of its last option, and the end of the options comes
behind that. -/
example : partsOf { entries := [⟨"-o", .required⟩, ⟨"-v", .absent⟩] } ["-vo", "--", "--", "-v"] =
    [.options "-vo" [⟨"-v", none⟩, ⟨"-o", some "--"⟩] (some "--"), .endOfOptions,
      .positional "-v"] := by
  decide +kernel

end OptionTable
end ShellCompletion
