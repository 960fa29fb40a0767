import Mathlib.Data.List.Basic
import ShellCompletion.Spellings

/-!
# What spellings accept

A word is accepted for a group if it is one of the tokens of the group, or a long enough
beginning of one that begins no token of another group.
-/

namespace ShellCompletion

/-- A text begins with its beginnings. -/
theorem Text.beginsWith_iff {text part : String} :
    Text.beginsWith text part = true ↔ part.toList <+: text.toList :=
  List.isPrefixOf_iff_prefix

namespace Spellings

variable {groups : List (List String)} {seen tokens others : List String} {token word : String}
  {place minLength : Nat} {enabled : Bool}

/-! ## Groups -/

/-- The tokens that are kept are those that were not seen. -/
theorem mem_newTokens : token ∈ newTokens seen tokens ↔ token ∈ tokens ∧ token ∉ seen := by
  have hkept : ∀ kept, token ∈ tokens.foldl (fun kept token =>
      if seen.contains token || kept.contains token then kept else kept ++ [token]) kept ↔
        token ∈ kept ∨ token ∈ tokens ∧ token ∉ seen := by
    induction tokens with
    | nil => simp
    | cons first rest ih =>
      intro kept
      rw [List.foldl_cons, ih]
      by_cases hfirst : seen.contains first || kept.contains first
      · rw [if_pos hfirst]
        simp only [Bool.or_eq_true, List.contains_iff_mem] at hfirst
        rw [List.mem_cons]
        by_cases heq : token = first
        · subst heq
          tauto
        · tauto
      · rw [if_neg hfirst]
        simp only [Bool.or_eq_true, List.contains_iff_mem, not_or] at hfirst
        rw [List.mem_append, List.mem_singleton, List.mem_cons]
        by_cases heq : token = first
        · subst heq
          tauto
        · tauto
  simpa [newTokens] using hkept []

/-- A token belongs to the first group that has it. -/
theorem mem_distinctGroups : token ∈ (distinctGroups seen groups)[place]?.getD [] ↔
    token ∈ groups[place]?.getD [] ∧ token ∉ seen ∧
      ∀ earlier < place, token ∉ groups[earlier]?.getD [] := by
  induction groups generalizing seen place with
  | nil => simp [distinctGroups]
  | cons tokens rest ih =>
    cases place with
    | zero => simp [distinctGroups, mem_newTokens]
    | succ place =>
      rw [distinctGroups, List.getElem?_cons_succ, List.getElem?_cons_succ, ih, List.mem_append,
        mem_newTokens]
      constructor
      · rintro ⟨hmem, hseen, hearlier⟩
        refine ⟨hmem, fun h => hseen (.inl h), fun earlier hlt => ?_⟩
        cases earlier with
        | zero => exact fun h => hseen (.inr ⟨h, fun h => hseen (.inl h)⟩)
        | succ earlier => exact hearlier earlier (Nat.lt_of_succ_lt_succ hlt)
      · rintro ⟨hmem, hseen, hearlier⟩
        refine ⟨hmem, ?_, fun earlier hlt => hearlier (earlier + 1) (Nat.succ_lt_succ hlt)⟩
        rintro (h | h)
        · exact hseen h
        · exact hearlier 0 (Nat.succ_pos place) h.1

/-- The tokens of other groups are those at other places. -/
theorem mem_otherTokens : token ∈ otherTokens groups place ↔
    ∃ other ≠ place, token ∈ groups[other]?.getD [] := by
  simp only [otherTokens, List.mem_flatten, List.mem_eraseIdx_iff_getElem?]
  constructor
  · rintro ⟨group, ⟨other, hne, hgroup⟩, htoken⟩
    exact ⟨other, hne, by rwa [hgroup]⟩
  · rintro ⟨other, hne, htoken⟩
    cases hgroup : groups[other]? with
    | none =>
      rw [hgroup] at htoken
      cases htoken
    | some group =>
      rw [hgroup] at htoken
      exact ⟨group, ⟨other, hne, hgroup⟩, htoken⟩

/-! ## Accepted words -/

/-- The beginnings of a token are the token itself and the shorter texts it begins with,
except for the empty one. -/
theorem mem_beginnings :
    word ∈ beginnings token ↔ word = token ∨ word ≠ "" ∧ word.toList <+: token.toList := by
  rw [beginnings]
  split
  · rename_i hempty
    rw [String.isEmpty_iff] at hempty
    subst hempty
    simp
  · rename_i hne
    rw [Bool.not_eq_true, String.isEmpty_eq_false_iff] at hne
    simp only [List.mem_map, List.mem_range]
    constructor
    · rintro ⟨count, hcount, rfl⟩
      refine .inr ⟨fun hempty => ?_, ?_⟩
      · have hlength := congrArg String.length hempty
        simp at hlength
        simp_all
      · rw [String.toList_ofList]
        exact List.take_prefix _ _
    · intro hword
      have hbegins : word ≠ "" ∧ word.toList <+: token.toList := by
        rcases hword with rfl | h
        · exact ⟨hne, List.prefix_rfl⟩
        · exact h
      have hlength : 0 < word.length := by
        rw [Nat.pos_iff_ne_zero, Ne, String.length_eq_zero_iff]
        exact hbegins.1
      have hle := hbegins.2.length_le
      rw [String.length_toList, String.length_toList] at hle
      refine ⟨word.length - 1, by omega, ?_⟩
      rw [Nat.sub_add_cancel hlength, ← String.length_toList,
        ← List.prefix_iff_eq_take.mp hbegins.2, String.ofList_toList]

/-- A word is a proper abbreviation: a long enough beginning of a token that begins no
other token. -/
def Abbreviates (minLength : Nat) (others : List String) (word token : String) : Prop :=
  word ≠ "" ∧ minLength ≤ word.length ∧ word.toList <+: token.toList ∧
    ∀ other ∈ others, ¬ word.toList <+: other.toList

/-- The accepted words of a group are its tokens and their abbreviations. -/
theorem mem_acceptedWords : word ∈ acceptedWords others minLength tokens ↔
    ∃ token ∈ tokens, word = token ∨ Abbreviates minLength others word token := by
  simp only [acceptedWords, List.mem_mergeSort, List.mem_eraseDups, List.mem_flatMap,
    List.mem_filter, mem_beginnings, accepts, Bool.or_eq_true, beq_iff_eq, Bool.and_eq_true,
    decide_eq_true_eq, Bool.not_eq_true', List.any_eq_false, Text.beginsWith_iff, Abbreviates]
  refine exists_congr fun token => and_congr_right fun _ => ?_
  tauto

/-- The words for a group are its tokens and, if abbreviations are on, abbreviations of
them. -/
theorem mem_wordsOf_new : word ∈ (new groups minLength enabled).wordsOf place ↔
    ∃ token ∈ (distinctGroups [] groups)[place]?.getD [], word = token ∨
      enabled = true ∧
        Abbreviates minLength (otherTokens (distinctGroups [] groups) place) word token := by
  rw [wordsOf, new]
  cases enabled with
  | false => simp
  | true =>
    simp only [↓reduceIte, List.getElem?_map, List.getElem?_zipIdx, true_and]
    cases (distinctGroups [] groups)[place]? with
    | none => simp
    | some tokens => simpa using mem_acceptedWords

/-- The tokens of a group that no group before has are among its words. -/
theorem mem_wordsOf_of_mem (hmem : token ∈ groups[place]?.getD [])
    (hfirst : ∀ earlier < place, token ∉ groups[earlier]?.getD []) :
    token ∈ (new groups minLength enabled).wordsOf place :=
  mem_wordsOf_new.mpr
    ⟨token, mem_distinctGroups.mpr ⟨hmem, List.not_mem_nil, hfirst⟩, .inl rfl⟩

end Spellings
end ShellCompletion
