import Mathlib.Data.List.Basic
import ShellCompletion.Text.Blank

/-!
# Words between blanks

Paths of commands and conditions are written as words with single blanks between
them. This file shows that cutting such a text gives the words back.
-/

namespace ShellCompletion.Text

/-- A text that cutting at white space can give: it is not empty and has no white
space in it. -/
def IsWord (text : String) : Prop :=
  text ≠ "" ∧ ∀ c ∈ text.toList, isBlank c = false

/-- The pieces between separators have no separator in them. -/
private theorem not_mem_separator_of_mem_splitOnP {p : Char → Bool} {chars piece : List Char}
    (hpiece : piece ∈ chars.splitOnP p) : ∀ c ∈ piece, p c = false := by
  induction chars generalizing piece with
  | nil => simp_all
  | cons c rest ih =>
    rw [List.splitOnP_cons_eq_if_modifyHead] at hpiece
    split at hpiece
    · rcases List.mem_cons.mp hpiece with rfl | hrest
      · simp
      · exact ih hrest
    · rename_i hc
      obtain ⟨first, others, hsplit⟩ :=
        List.exists_cons_of_ne_nil (List.splitOnP_ne_nil p rest)
      rw [hsplit] at ih hpiece
      rcases List.mem_cons.mp (by simpa using hpiece) with rfl | hothers
      · intro d hd
        rcases List.mem_cons.mp hd with rfl | hd
        · simpa using hc
        · exact ih List.mem_cons_self d hd
      · exact ih (List.mem_cons_of_mem _ hothers)

section Pieces

variable {isSeparator : Char → Bool} {text piece : String}

/-- Cutting a text gives pieces without separators. -/
theorem isSeparator_of_mem_split (hpiece : piece ∈ split isSeparator text) :
    ∀ c ∈ piece.toList, isSeparator c = false := by
  obtain ⟨chars, hchars, rfl⟩ := List.mem_map.mp hpiece
  rw [String.toList_ofList]
  exact not_mem_separator_of_mem_splitOnP hchars

/-- Pieces that are not empty, with single separators between them, are cut into the same
pieces. -/
theorem filter_split_intercalate {mark : String} {separator : Char}
    (hmark : mark.toList = [separator]) (hseparator : isSeparator separator = true)
    {list : List String}
    (hlist : ∀ piece ∈ list, piece ≠ "" ∧ ∀ c ∈ piece.toList, isSeparator c = false) :
    (split isSeparator (mark.intercalate list)).filter (!·.isEmpty) = list := by
  induction list with
  | nil => simp [split]
  | cons piece rest ih =>
    have hpiece := hlist piece List.mem_cons_self
    have hkept : (!piece.isEmpty) = true := by simpa using hpiece.1
    have hrest := ih fun w hw => hlist w (List.mem_cons_of_mem _ hw)
    cases rest with
    | nil =>
      simp only [split, String.intercalate_singleton, List.splitOnP_eq_singleton hpiece.2]
      simpa using hpiece.1
    | cons next others =>
      have htext : (mark.intercalate (piece :: next :: others)).toList =
          piece.toList ++ separator :: (mark.intercalate (next :: others)).toList := by
        simp [hmark]
      have hcut := List.splitOnP_append_cons_of_forall_mem hpiece.2 separator hseparator
        (mark.intercalate (next :: others)).toList
      simp only [split] at hrest ⊢
      rw [htext, hcut, List.map_cons, List.filter_cons, String.ofList_toList, if_pos hkept,
        hrest]

end Pieces

/-- Cutting a text gives words only. -/
theorem isWord_of_mem_words {text word : String} (hword : word ∈ words text) : IsWord word := by
  obtain ⟨hpiece, hne⟩ := List.mem_filter.mp hword
  exact ⟨by simpa using hne, isSeparator_of_mem_split hpiece⟩

/-- Words with single blanks between them are cut into the same words. -/
theorem words_intercalate {list : List String} (hwords : ∀ word ∈ list, IsWord word) :
    words (" ".intercalate list) = list :=
  filter_split_intercalate rfl (by decide) hwords

end ShellCompletion.Text
