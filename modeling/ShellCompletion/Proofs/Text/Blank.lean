import Mathlib.Data.List.TakeWhile
import ShellCompletion.Text.Blank

/-!
# White space at the edges

White space has few codes. A trimmed text neither begins nor ends with white space, and trimming
takes nothing but white space away.
-/

namespace ShellCompletion.Text

/-- The codes of white space. -/
def blankCodes : List Nat :=
  List.range' 0x9 5 ++ List.range' 0x2000 11 ++
    [0x20, 0x85, 0xA0, 0x1680, 0x2028, 0x2029, 0x202F, 0x205F, 0x3000]

/-- White space has one of these codes. -/
theorem mem_blankCodes {c : Char} (hc : isBlank c = true) : c.toNat ∈ blankCodes := by
  simp only [isBlank, Bool.or_eq_true, Bool.and_eq_true, decide_eq_true_eq, beq_iff_eq] at hc
  simp only [blankCodes, List.mem_append, List.mem_range'_1, List.mem_cons, List.not_mem_nil,
    or_false]
  omega

/-- Neither the first nor the last of the characters is white space. -/
def HasEdges (chars : List Char) : Prop :=
  (∀ c ∈ chars.head?, isBlank c = false) ∧ ∀ c ∈ chars.getLast?, isBlank c = false

variable {text : String} {start last : List Char}

/-- What is trimmed is white space before and behind the characters that are kept. -/
theorem exists_trim (text : String) :
    ∃ behind, text.toList.dropWhile isBlank = (trim text).toList ++ behind ∧
      ∀ c ∈ behind, isBlank c = true := by
  refine ⟨((text.toList.dropWhile isBlank).reverse.takeWhile isBlank).reverse, ?_, ?_⟩
  · rw [trim, trimEnd, String.toList_ofList, String.toList_ofList, ← List.reverse_append,
      List.takeWhile_append_dropWhile, List.reverse_reverse]
  · intro c hc
    exact List.mem_takeWhile_imp (List.mem_reverse.mp hc)

/-- Trimming leaves no white space at the edges. -/
theorem hasEdges_trim (text : String) : HasEdges (trim text).toList := by
  constructor
  · intro c hc
    obtain ⟨behind, hkept, -⟩ := exists_trim text
    have hhead : c ∈ (text.toList.dropWhile isBlank).head? := by
      obtain ⟨rest, hrest⟩ := List.head?_eq_some_iff.mp hc
      rw [hkept, hrest]
      rfl
    have hfirst := List.head?_dropWhile_not isBlank text.toList
    rw [Option.mem_def.mp hhead] at hfirst
    exact hfirst
  · intro c hc
    have hlast := List.head?_dropWhile_not isBlank (text.toList.dropWhile isBlank).reverse
    rw [trim, trimEnd, String.toList_ofList, String.toList_ofList, List.getLast?_reverse] at hc
    rw [Option.mem_def.mp hc] at hlast
    exact hlast

/-- Trimming does not reach beyond characters without white space at their edges. -/
theorem toList_trim_append (htext : text.toList = start ++ last) (hne : last ≠ [])
    (hedges : HasEdges last) : (trim text).toList = start.dropWhile isBlank ++ last := by
  have hfirst : last.dropWhile isBlank = last := by
    obtain ⟨c, rest, rfl⟩ := List.exists_cons_of_ne_nil hne
    have hc : isBlank c = false := hedges.1 c rfl
    simp [hc]
  have hend : last.reverse.dropWhile isBlank = last.reverse := by
    obtain ⟨c, rest, hrest⟩ := List.exists_cons_of_ne_nil (List.reverse_ne_nil_iff.mpr hne)
    have hc : isBlank c = false := hedges.2 c (by rw [← List.head?_reverse, hrest]; rfl)
    rw [hrest, List.dropWhile_cons_of_neg (by simp [hc])]
  have hdrop : (start ++ last).dropWhile isBlank = start.dropWhile isBlank ++ last := by
    rw [List.dropWhile_append]
    split
    · rename_i hempty
      rw [List.isEmpty_iff.mp hempty, hfirst, List.nil_append]
    · rfl
  rw [trim, trimEnd, String.toList_ofList, String.toList_ofList, htext, hdrop,
    List.reverse_append, List.dropWhile_append]
  split
  · rename_i hempty
    rw [hend, List.isEmpty_iff, List.reverse_eq_nil_iff] at hempty
    exact absurd hempty hne
  · rw [hend, List.reverse_append, List.reverse_reverse, List.reverse_reverse]

end ShellCompletion.Text
