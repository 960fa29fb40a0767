import Mathlib.Data.List.TakeDrop
import Mathlib.Data.List.TakeWhile
import ShellCompletion.Condition
import ShellCompletion.Proofs.Text.Words

/-!
# The language of conditions

A line is a condition exactly if its words form a phrase: the name of a form, the options
and, in the form with values, a separator and the values. The condition is written as these
words with single blanks between them, whatever white space stood there before.
-/

namespace ShellCompletion.Condition

variable {words : List String} {condition : Condition}

/-- The words that make up a condition. -/
inductive Phrase : List String → Condition → Prop
  /-- Options behind the name of the form without values. -/
  | hasOption {options : List String} (hoptions : options ≠ []) (hseparator : "--" ∉ options) :
      Phrase ("has_option" :: options) (.hasOption options)
  /-- Options and values behind the name of the form with values. The first separator ends
  the options, so only values may look like one. -/
  | optionIs {options values : List String} (hoptions : options ≠ [])
      (hseparator : "--" ∉ options) (hvalues : values ≠ []) :
      Phrase ("option_is" :: options ++ "--" :: values) (.optionIs options values)

/-- A phrase has the words of its condition. -/
theorem Phrase.toWords_eq (hphrase : Phrase words condition) : condition.toWords = words := by
  cases hphrase <;> rfl

/-- Cutting words at the first separator behind words that are none. -/
theorem span_separator {options values : List String} (hseparator : "--" ∉ options) :
    (options ++ "--" :: values).span (· != "--") = (options, "--" :: values) := by
  have hbefore : ∀ word ∈ options, (word != "--") = true := by
    intro word hword
    simpa using fun heq : word = "--" => hseparator (heq ▸ hword)
  rw [List.span_eq_takeWhile_dropWhile, List.takeWhile_append_of_pos hbefore,
    List.dropWhile_append_of_pos hbefore]
  simp

/-- Words cut at a separator are the options, the separator and what follows it. -/
theorem eq_of_span {arguments options values : List String} {separator : String}
    (hspan : arguments.span (· != "--") = (options, separator :: values)) :
    "--" ∉ options ∧ arguments = options ++ "--" :: values := by
  rw [List.span_eq_takeWhile_dropWhile, Prod.mk.injEq] at hspan
  obtain ⟨htake, hdrop⟩ := hspan
  have hseparator : separator = "--" := by
    simpa [hdrop] using List.head?_dropWhile_not (· != "--") arguments
  constructor
  · intro hmem
    rw [← htake] at hmem
    simpa using List.mem_takeWhile_imp hmem
  · rw [← hseparator, ← hdrop, ← htake, List.takeWhile_append_dropWhile]

/-- Words make up a condition exactly if they are a phrase of it. -/
theorem ofWords?_eq_ok_iff : ofWords? words = .ok condition ↔ Phrase words condition := by
  constructor
  · fun_cases ofWords? words with
    | case4 form options hform hoptions hseparator =>
      rintro ⟨⟩
      rw [eq_of_beq hform]
      exact .hasOption (by simpa using hoptions) (by simpa using hseparator)
    | case8 form arguments _ hform options separator values hspan hoptions hvalues =>
      rintro ⟨⟩
      obtain ⟨hnone, rfl⟩ := eq_of_span hspan
      rw [eq_of_beq hform]
      exact .optionIs (by simpa using hoptions) hnone (by simpa using hvalues)
    | _ => intro hread; cases hread
  · rintro (⟨hoptions, hseparator⟩ | ⟨hoptions, hseparator, hvalues⟩)
    · simp [ofWords?, ConditionForm.word, hoptions, hseparator]
    · simp only [List.cons_append, ofWords?, span_separator hseparator]
      simp [ConditionForm.word, hoptions, hvalues]

/-- A line is read as a condition exactly if its words are a phrase of the condition. The
condition is then written as these words with single blanks between them, and read back from
that. -/
theorem parse_eq_ok_iff (line : String) (condition : Condition) :
    (parse line = .ok condition ↔ Phrase (Text.words line) condition) ∧
      (parse line = .ok condition →
        condition.render = " ".intercalate (Text.words line) ∧
          parse condition.render = .ok condition) := by
  refine ⟨ofWords?_eq_ok_iff, fun hread => ?_⟩
  have hphrase := ofWords?_eq_ok_iff.mp hread
  have hrender : condition.render = " ".intercalate (Text.words line) := by
    rw [render, hphrase.toWords_eq]
  refine ⟨hrender, ?_⟩
  rw [hrender, parse, Text.words_intercalate fun _ => Text.isWord_of_mem_words]
  exact hread

/-- A condition is read from a line with a tab, an ideographic space and a value that looks
like a separator, and is written with blanks. -/
theorem parse_eq_ok_iff_spaced :
    let line := "\toption_is --mode -m  --\u3000fast -- "
    let condition : Condition := .optionIs ["--mode", "-m"] ["fast", "--"]
    parse line = .ok condition ∧ Phrase (Text.words line) condition ∧
      condition.render = "option_is --mode -m -- fast --" ∧
        parse condition.render = .ok condition := by
  intro line condition
  have hread : parse line = .ok condition := by decide +kernel
  obtain ⟨hiff, hwritten⟩ := parse_eq_ok_iff line condition
  exact ⟨hread, hiff.mp hread, by decide +kernel, (hwritten hread).2⟩

end ShellCompletion.Condition
