import ShellCompletion.CommandOption
import ShellCompletion.Proofs.Spellings

/-!
# Option strings

An option can only be made with strings that its check lets through. So every string of an
option is a dash and at least one more character, and its kind says how long it is.
-/

namespace ShellCompletion.CommandOption

variable {option : CommandOption} {string : String}

/-- Every option string has a dash and something after it, which is not just another dash. -/
theorem dashed_of_mem (hstring : string ∈ option.strings) :
    Text.beginsWith string "-" = true ∧ string ≠ "-" ∧ string ≠ "--" := by
  have hsound := option.strings_sound
  have hfault : optionStringFault? string = none := by
    simp only [optionStringsFault?] at hsound
    split at hsound
    · cases hsound
    · split at hsound
      · cases hsound
      · exact List.findSome?_eq_none_iff.mp hsound string hstring
  rw [optionStringFault?] at hfault
  split at hfault
  · cases hfault
  · split at hfault
    · cases hfault
    · simp_all

/-- Every option string is a dash and at least one more character. -/
theorem toList_of_mem (hstring : string ∈ option.strings) :
    ∃ first rest, string.toList = '-' :: first :: rest ∧ (first = '-' → rest ≠ []) := by
  obtain ⟨hdash, hone, htwo⟩ := dashed_of_mem hstring
  obtain ⟨rest, hrest⟩ := Text.beginsWith_iff.mp hdash
  cases rest with
  | nil => exact absurd (String.toList_inj.mp (by simpa using hrest.symm)) hone
  | cons first rest =>
    refine ⟨first, rest, hrest.symm, ?_⟩
    rintro rfl rfl
    exact htwo (String.toList_inj.mp (by simpa using hrest.symm))

/-- Short option strings are a dash and a letter. -/
theorem eq_of_short (hstring : string ∈ option.strings)
    (hkind : OptionKind.of string = .short) : ∃ letter, string.toList = ['-', letter] := by
  obtain ⟨first, rest, hchars, -⟩ := toList_of_mem hstring
  rw [OptionKind.of] at hkind
  split at hkind
  · cases hkind
  · split at hkind
    · rename_i hlength
      rw [beq_iff_eq, ← String.length_toList, hchars] at hlength
      have hrest : rest = [] := by simpa using hlength
      exact ⟨first, by rw [hchars, hrest]⟩
    · cases hkind

/-- Long and old-style option strings have three characters or more. -/
theorem three_le_length (hstring : string ∈ option.strings)
    (hkind : OptionKind.of string ≠ .short) : 3 ≤ string.length := by
  obtain ⟨first, rest, hchars, hlong⟩ := toList_of_mem hstring
  rw [← String.length_toList, hchars]
  cases rest with
  | cons second rest => simp
  | nil =>
    have hfirst : first ≠ '-' := fun hdash => hlong hdash rfl
    refine absurd ?_ hkind
    simp [OptionKind.of, Text.beginsWith, hchars, Ne.symm hfirst, ← String.length_toList,
      List.isPrefixOf]

end ShellCompletion.CommandOption
