import Mathlib.Data.List.Nodup
import Mathlib.Data.List.Perm.Subperm
import ShellCompletion.Script.Outline
import ShellCompletion.Text.ShellWord

/-!
# Names that are not taken

A name that is taken gets a number. Among more numbers than there are taken names one must
be free, so the name found is never taken.
-/

namespace ShellCompletion.Text

variable {taken : List String} {base : String}

/-- Different numbers make different names. -/
theorem numbered_injective (base : String) : Function.Injective (numbered base) := by
  intro a b hsame
  have hdigits : Nat.toDigits 10 a = Nat.toDigits 10 b := by
    simpa [numbered, Nat.toString_eq_repr, Nat.toList_repr] using congrArg String.toList hsame
  simpa using congrArg (Nat.ofDigitChars 10 · 0) hdigits

/-- If the search ends with a taken name, all names it tried are taken. -/
theorem numbered_mem_of_freshFrom_mem {fuel number : Nat}
    (hmem : freshFrom taken base fuel number ∈ taken) :
    ∀ count ≤ fuel, numbered base (number + count) ∈ taken := by
  induction fuel generalizing number with
  | zero =>
    intro count hcount
    rw [Nat.le_zero.mp hcount]
    exact hmem
  | succ fuel ih =>
    rw [freshFrom] at hmem
    split at hmem
    · rename_i htaken
      intro count hcount
      cases count with
      | zero => exact List.contains_iff_mem.mp htaken
      | succ count =>
        rw [Nat.add_left_comm, Nat.add_comm]
        exact ih hmem count (Nat.le_of_succ_le_succ hcount)
    · rename_i hfree
      exact absurd (List.contains_iff_mem.mpr hmem) hfree

/-- The name found is not taken. -/
theorem fresh_notMem (taken : List String) (base : String) : fresh taken base ∉ taken := by
  rw [fresh]
  split
  · intro hmem
    have hall := numbered_mem_of_freshFrom_mem hmem
    have hinjective : Function.Injective fun count => numbered base (2 + count) :=
      fun _ _ hsame => Nat.add_left_cancel (numbered_injective base hsame)
    have hsubset : ((List.range (taken.length + 1)).map fun count => numbered base (2 + count)) ⊆
        taken := by
      intro name hname
      obtain ⟨count, hcount, rfl⟩ := List.mem_map.mp hname
      exact hall count (Nat.le_of_lt_succ (List.mem_range.mp hcount))
    have hlength := ((List.Nodup.map hinjective List.nodup_range).subperm hsubset).length_le
    rw [List.length_map, List.length_range] at hlength
    omega
  · rename_i hfree
    exact fun hmem => hfree (List.contains_iff_mem.mpr hmem)

/-- The name found is the base name, or has a number behind it. -/
theorem fresh_cases (taken : List String) (base : String) :
    fresh taken base = base ∨ ∃ number, fresh taken base = numbered base number := by
  have hfrom : ∀ fuel number, ∃ found, freshFrom taken base fuel number = numbered base found := by
    intro fuel
    induction fuel with
    | zero => exact fun number => ⟨number, rfl⟩
    | succ fuel ih =>
      intro number
      rw [freshFrom]
      split
      · exact ih (number + 1)
      · exact ⟨number, rfl⟩
  rw [fresh]
  split
  · exact .inr (hfrom _ _)
  · exact .inl rfl

/-- The name found begins with the base name. -/
theorem prefix_fresh (taken : List String) (base : String) :
    base.toList <+: (fresh taken base).toList := by
  obtain hfresh | ⟨number, hfresh⟩ := fresh_cases taken base
  · exact ⟨[], by rw [hfresh, List.append_nil]⟩
  · rw [hfresh, numbered, String.toList_append]
    exact List.prefix_append _ _

/-- Identifiers are made of characters for names. -/
theorem isNameChar_of_mem_identifier {text : String} {c : Char}
    (hc : c ∈ (identifier text).toList) : isNameChar c = true := by
  rw [identifier, String.toList_ofList] at hc
  obtain ⟨old, -, rfl⟩ := List.mem_map.mp hc
  split
  · assumption
  · rfl

/-- Natural numbers are written in digits. -/
theorem isDigit_of_mem_toString {number : Nat} {c : Char} (hc : c ∈ (toString number).toList) :
    c.isDigit = true := by
  rw [Nat.toString_eq_repr, Nat.toList_repr] at hc
  exact Nat.isDigit_of_mem_toDigits (by omega) (by omega) hc

/-- If the base name is made of characters for names, so is the name found. -/
theorem isNameChar_of_mem_fresh (hbase : ∀ c ∈ base.toList, isNameChar c = true) :
    ∀ c ∈ (fresh taken base).toList, isNameChar c = true := by
  obtain hfresh | ⟨number, hfresh⟩ := fresh_cases taken base
  · rwa [hfresh]
  · intro c hc
    rw [hfresh, numbered, String.toList_append, List.mem_append] at hc
    rcases hc with hc | hc
    · exact hbase c hc
    · simp [isNameChar, Char.isAlphanum, isDigit_of_mem_toString hc]

end ShellCompletion.Text

namespace ShellCompletion

/-- Names made different from those before them are different from each other and from the
taken ones. -/
theorem nodup_distinctNames (taken names : List String) :
    (distinctNames taken names).Nodup ∧ taken.Disjoint (distinctNames taken names) := by
  induction names generalizing taken with
  | nil => exact ⟨List.nodup_nil, List.disjoint_nil_right _⟩
  | cons base rest ih =>
    obtain ⟨hnodup, hdisjoint⟩ := ih (taken ++ [Text.fresh taken base])
    rw [List.disjoint_append_left, List.singleton_disjoint] at hdisjoint
    rw [distinctNames, List.nodup_cons, List.disjoint_cons_right]
    exact ⟨⟨hdisjoint.2, hnodup⟩, Text.fresh_notMem taken base, hdisjoint.1⟩

end ShellCompletion
