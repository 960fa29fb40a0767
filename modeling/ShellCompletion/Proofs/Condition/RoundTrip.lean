import ShellCompletion.Proofs.Condition.Grammar

/-!
# Reading conditions that were written

A condition that was read from a line is written as a line that reads as the same
condition. The conditions that a line can express are singled out first.
-/

namespace ShellCompletion.Condition

/-- A condition that a line can express: it names options and, in the form with values,
values; all are words, and the separator of the two is none of the options. -/
structure IsExpressible (condition : Condition) : Prop where
  /-- Options are named. -/
  options_ne_nil : condition.options ≠ []
  /-- The separator is none of the options. -/
  separator_notMem : "--" ∉ condition.options
  /-- Values are named in the form that has values. -/
  values_ne_nil : ∀ values, condition = .optionIs condition.options values → values ≠ []
  /-- Options and values are words. -/
  isWord : ∀ word ∈ condition.toWords, Text.IsWord word

/-- The words of an expressible condition are a phrase of it. -/
theorem IsExpressible.phrase {condition : Condition} (hexpressible : condition.IsExpressible) :
    Phrase condition.toWords condition := by
  obtain ⟨hoptions, hseparator, hvalues, _⟩ := hexpressible
  cases condition with
  | hasOption options => exact .hasOption hoptions hseparator
  | optionIs options values => exact .optionIs hoptions hseparator (hvalues values rfl)

/-- A condition that has a phrase of words can be expressed. -/
theorem Phrase.isExpressible {words : List String} {condition : Condition}
    (hphrase : Phrase words condition) (hwords : ∀ word ∈ words, Text.IsWord word) :
    condition.IsExpressible := by
  have hisWord : ∀ word ∈ condition.toWords, Text.IsWord word := by
    rwa [hphrase.toWords_eq]
  cases hphrase with
  | hasOption hoptions hseparator => exact ⟨hoptions, hseparator, nofun, hisWord⟩
  | optionIs hoptions hseparator hvalues =>
    refine ⟨hoptions, hseparator, ?_, hisWord⟩
    rintro _ ⟨⟩
    exact hvalues

/-- An expressible condition is read back from its line. -/
theorem IsExpressible.parse_render {condition : Condition}
    (hexpressible : condition.IsExpressible) : parse condition.render = .ok condition := by
  rw [parse, render, Text.words_intercalate hexpressible.isWord, ofWords?_eq_ok_iff]
  exact hexpressible.phrase

/-- A condition that was read from a line can be expressed. -/
theorem isExpressible_of_parse {line : String} {condition : Condition}
    (hread : parse line = .ok condition) : condition.IsExpressible :=
  (ofWords?_eq_ok_iff.mp hread).isExpressible fun _ => Text.isWord_of_mem_words

end ShellCompletion.Condition
