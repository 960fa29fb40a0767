import ShellCompletion.Proofs.Scope.OptionList
import ShellCompletion.Proofs.Scope.Visibility
import ShellCompletion.Script.Zsh.Function

/-!
# Which options zsh is told of

A zsh function lists the options that it shows, and behind them hidden ones with which the
words are read all the same. The first option of this list that has a string is the one that
the string belongs to on the command line.
-/

namespace ShellCompletion

namespace Zsh

variable {scope : Scope} {visible list : List Declaration} {declared : Declaration}
  {seen : List String} {string : String}

/-- The options that a function tells zsh of, in their order. -/
def listed (scope : Scope) : List Declaration :=
  scope.visibleOptions ++ hidden scope

/-! ## Hidden options -/

/-- A string that is not seen before, and is no string of a visible option, leads to the same
option among the hidden ones as among all. -/
theorem find?_hiddenOptions (hunseen : string ∉ seen)
    (hvisible : ∀ declared ∈ list, string ∈ declared.option.strings →
      visible.any (·.sameAddress declared) = false) :
    (hiddenOptions visible seen list).find? (·.option.answersTo string) =
      list.find? (·.option.answersTo string) := by
  induction list generalizing seen with
  | nil => rfl
  | cons first rest ih =>
    obtain ⟨hfirst, hrest⟩ := List.forall_mem_cons.mp hvisible
    rw [hiddenOptions, List.find?_cons]
    by_cases hstring : string ∈ first.option.strings
    · -- The string itself keeps the option in the list.
      have hkept : ¬ (visible.any (·.sameAddress first) ||
          first.option.strings.all seen.contains) = true := by
        rw [hfirst hstring, Bool.false_or, List.all_eq_true]
        intro hall
        exact hunseen (List.contains_iff_mem.mp (hall string hstring))
      rw [if_neg hkept, List.find?_cons, CommandOption.answersTo_iff.mpr hstring]
    · have hother : first.option.answersTo string = false := by
        rwa [← Bool.not_eq_true, CommandOption.answersTo_iff]
      rw [hother]
      split
      · exact ih hunseen hrest
      · rw [List.find?_cons, hother]
        refine ih (fun hseen => ?_) hrest
        exact (List.mem_append.mp hseen).elim hunseen hstring

/-- A string of no visible option leads to a hidden option exactly as it does on the command
line. -/
theorem find?_hidden (hnone : ∀ declared ∈ scope.visibleOptions, string ∉ declared.option.strings) :
    (hidden scope).find? (·.option.answersTo string) =
      (Scope.declarationsOf scope.outer).find? (·.option.answersTo string) := by
  refine find?_hiddenOptions (fun hseen => ?_) fun declared hdeclared hstring => ?_
  · obtain ⟨declared, hvisible, hstring⟩ := List.mem_flatMap.mp hseen
    exact hnone declared hvisible hstring
  · rw [List.any_eq_false]
    intro shown hshown haddress
    have hknown := Scope.mem_knownOptions_of_visible hshown
    have hsame : shown = declared :=
      Scope.eq_of_sameAddress hknown (List.mem_append_right _ hdeclared) haddress
    exact hnone shown hshown (hsame ▸ hstring)

/-! ## All options of the list -/

/-- The first option of the list that has a string is the one that the string belongs to. -/
theorem find?_listed (hdistinct : Scope.Distinct scope.levels) (string : String) :
    (listed scope).find? (·.option.answersTo string) = scope.owner? string := by
  have howner : scope.owner? string =
      (scope.ownOptions.find? (·.option.answersTo string)).or
        ((Scope.declarationsOf scope.outer).find? (·.option.answersTo string)) :=
    List.find?_append
  rw [listed, List.find?_append]
  by_cases hshown : ∃ shown ∈ scope.visibleOptions, string ∈ shown.option.strings
  · -- No nearer command declares a string of a visible option again.
    obtain ⟨shown, hvisible, hstring⟩ := hshown
    have hfind : scope.visibleOptions.find? (·.option.answersTo string) = some shown :=
      hdistinct.findOption?_eq_some.mpr ⟨hvisible, hstring⟩
    rw [hfind, Scope.owner?_of_visible hdistinct hvisible hstring]
    rfl
  · have hnone : ∀ declared ∈ scope.visibleOptions, string ∉ declared.option.strings :=
      fun declared hvisible hstring => hshown ⟨declared, hvisible, hstring⟩
    have hfind : ∀ {shown}, shown ⊆ scope.visibleOptions →
        shown.find? (·.option.answersTo string) = none := by
      intro shown hvisible
      refine List.find?_eq_none.mpr fun declared hdeclared hanswers => ?_
      exact hnone declared (hvisible hdeclared) (CommandOption.answersTo_iff.mp hanswers)
    rw [howner, hfind (List.Subset.refl _), hfind (List.subset_append_left _ _),
      find?_hidden hnone]

/-- The options of the list have the strings that belong to an option. -/
theorem exists_listed_iff (hdistinct : Scope.Distinct scope.levels) :
    (∃ declared ∈ listed scope, string ∈ declared.option.strings) ↔
      (scope.owner? string).isSome := by
  rw [← find?_listed hdistinct, List.find?_isSome]
  simp only [CommandOption.answersTo_iff]

end Zsh

namespace CommandTree

/-- A function tells zsh of exactly the option strings with which the words of its command are
read. The first option that has a string has the arity with which the string is read. -/
theorem listed_known {tree : CommandTree} (hbuilt : tree.Built) (config : Config) (id : Nat) :
    let scope := tree.scope config id
    (∀ string, (∃ declared ∈ Zsh.listed scope, string ∈ declared.option.strings) ↔
      ∃ entry ∈ scope.optionTable.entries, entry.option = string) ∧
    ∀ entry ∈ scope.optionTable.entries, ∃ first,
      (Zsh.listed scope).find? (·.option.answersTo entry.option) = some first ∧
        first.option.arity = entry.arity := by
  intro scope
  have hdistinct : Scope.Distinct scope.levels := hbuilt.wellFormed.distinct config id
  have hnodup : (scope.optionTable.entries.map (·.option)).Nodup := OptionTable.nodup_ofEntries _
  have hentry : ∀ {string entry}, entry ∈ scope.optionTable.entries ∧ entry.option = string ↔
      ∃ owner, scope.owner? string = some owner ∧ ⟨string, owner.option.arity⟩ = entry := by
    intro string entry
    rw [← OptionTable.named?_eq_some_iff hnodup, Scope.named?_optionTable, Option.map_eq_some_iff]
  refine ⟨fun string => ?_, fun entry hmem => ?_⟩
  · rw [Zsh.exists_listed_iff hdistinct, Option.isSome_iff_exists]
    simp only [hentry]
    constructor
    · rintro ⟨owner, howner⟩
      exact ⟨_, owner, howner, rfl⟩
    · rintro ⟨_, owner, howner, -⟩
      exact ⟨owner, howner⟩
  · obtain ⟨owner, howner, hsame⟩ := hentry.mp ⟨hmem, rfl⟩
    exact ⟨owner, (Zsh.find?_listed hdistinct entry.option).trans howner,
      congrArg OptionEntry.arity hsame⟩

/-- An option with a value under two strings. -/
def aliasedOutput : CommandOption :=
  { CommandOption.ofStrings ["-o", "--output"] (by decide) with arity := .required }

/-- The flag comes first in the list of the subcommand, and the option with a value is hidden
behind it. -/
theorem listed_known_output :
    let tree := withHeir [aliasedOutput] [CommandOption.ofStrings ["-o"] (by decide)]
    let scope := tree.scope {} 1
    tree.Built ∧ Zsh.hidden scope = [⟨0, 0, aliasedOutput⟩] ∧
    (∀ string, (∃ declared ∈ Zsh.listed scope, string ∈ declared.option.strings) ↔
      ∃ entry ∈ scope.optionTable.entries, entry.option = string) ∧
    ∀ entry ∈ scope.optionTable.entries, ∃ first,
      (Zsh.listed scope).find? (·.option.answersTo entry.option) = some first ∧
        first.option.arity = entry.arity := by
  intro tree scope
  have hbuilt : tree.Built :=
    built_withHeir (List.pairwise_singleton _ _) (List.pairwise_singleton _ _)
  exact ⟨hbuilt, by decide +kernel, listed_known hbuilt {} 1⟩

end CommandTree
end ShellCompletion
