import Mathlib.Data.List.TakeDrop
import Mathlib.Data.List.TakeWhile
import ShellCompletion.CommandLine.Parsed
import ShellCompletion.Proofs.CommandLine.Table

/-!
# Names in words

A word names an option up to its first equals sign, and has the value of the option behind
it. A name that stands for a long or old-style option string leads to the entry of the string.
-/

namespace ShellCompletion

/-- A text is cut at its first mark. -/
theorem Text.cutAt?_cases (mark : Char) (text : String) :
    Text.cutAt? mark text = none ∧ mark ∉ text.toList ∨
      ∃ before after, Text.cutAt? mark text = some (before, after) ∧
        text.toList = before.toList ++ mark :: after.toList ∧ mark ∉ before.toList := by
  have hparts := List.takeWhile_append_dropWhile (p := (· != mark)) (l := text.toList)
  have hbefore : mark ∉ text.toList.takeWhile (· != mark) := fun hmem => by
    simpa using List.mem_takeWhile_imp hmem
  rw [cutAt?, List.span_eq_takeWhile_dropWhile]
  cases hrest : text.toList.dropWhile (· != mark) with
  | nil =>
    rw [hrest, List.append_nil] at hparts
    exact .inl ⟨rfl, hparts ▸ hbefore⟩
  | cons first after =>
    have hfirst := List.head_dropWhile_not (· != mark) (l := text.toList) (by simp [hrest])
    simp only [hrest, List.head_cons, bne_eq_false_iff_eq] at hfirst
    rw [hrest, hfirst] at hparts
    exact .inr ⟨_, _, rfl, by simpa using hparts.symm, by simpa using hbefore⟩

/-- Texts that have the first two characters in common both begin with two dashes or none. -/
theorem OptionKind.of_eq_long_iff {start text other : String} (htext : start.toList <+: text.toList)
    (hother : start.toList <+: other.toList) (hlength : 2 ≤ start.length) :
    Text.beginsWith text "--" = true ↔ Text.beginsWith other "--" = true := by
  have hstart : ∀ {text : String}, start.toList <+: text.toList →
      (Text.beginsWith text "--" = true ↔ Text.beginsWith start "--" = true) := by
    intro text htext
    rw [Text.beginsWith_iff, Text.beginsWith_iff]
    refine ⟨fun hdashes => ?_, fun hdashes => hdashes.trans htext⟩
    exact List.prefix_of_prefix_length_le hdashes htext
      (by rw [String.length_toList]; exact hlength)
  rw [hstart htext, hstart hother]

namespace OptionTable

variable {table : OptionTable} {entry : OptionEntry} {word name spelling suffix token : String}
  {enabled : Bool}

/-! ## Words with a value attached -/

/-- A spelling without an equals sign is a word without an attached value. -/
theorem eq_iff_splitWord (hequals : '=' ∉ spelling.toList) :
    word = spelling ↔ (splitWord word).1 = spelling ∧ (splitWord word).2 = none := by
  rw [splitWord]
  rcases Text.cutAt?_cases '=' word with ⟨hcut, -⟩ | ⟨before, after, hcut, hword, -⟩
  · rw [hcut]
    exact (and_iff_left rfl).symm
  · rw [hcut]
    refine iff_of_false ?_ fun h => Option.some_ne_none _ h.2
    rintro rfl
    exact hequals (hword ▸ List.mem_append_right _ List.mem_cons_self)

/-- A word with an attached value begins with its name and an equals sign. -/
theorem beginsWith_iff_splitWord (hequals : '=' ∉ spelling.toList) :
    Text.beginsWith word (spelling ++ "=") = true ↔
      (splitWord word).1 = spelling ∧ (splitWord word).2 ≠ none := by
  rw [splitWord, Text.beginsWith_iff, String.toList_append]
  rcases Text.cutAt?_cases '=' word with ⟨hcut, hnone⟩ | ⟨before, after, hcut, hword, hbefore⟩
  · rw [hcut]
    exact iff_of_false (fun hbegins => hnone (hbegins.subset (by simp))) fun h => h.2 rfl
  · rw [hcut, hword]
    refine Iff.trans ?_ (and_iff_left (Option.some_ne_none after)).symm
    have hname : ∀ {name rest : List Char}, '=' ∉ name →
        (name ++ '=' :: rest).takeWhile (· != '=') = name := by
      intro name rest hmem
      have hall : ∀ c ∈ name, (c != '=') = true := by
        intro c hc
        rw [bne_iff_ne]
        rintro rfl
        exact hmem hc
      rw [List.takeWhile_append_of_pos hall, List.takeWhile_cons_of_neg (by decide),
        List.append_nil]
    constructor
    · rintro ⟨rest, hrest⟩
      have hsame := congrArg (List.takeWhile (· != '=')) hrest
      rw [show spelling.toList ++ "=".toList ++ rest = spelling.toList ++ '=' :: rest by simp,
        hname hequals, hname hbefore] at hsame
      exact String.toList_inj.mp hsame.symm
    · rintro rfl
      exact ⟨after.toList, by simp⟩

/-- A word begins with its name. -/
theorem prefix_fst_splitWord (word : String) : (splitWord word).1.toList <+: word.toList := by
  rw [splitWord]
  rcases Text.cutAt?_cases '=' word with ⟨hcut, -⟩ | ⟨before, after, hcut, hword, -⟩
  · simp [hcut]
  · rw [hcut, hword]
    exact List.prefix_append _ _

/-- A word is its name, or its name and an equals sign before the attached value. -/
theorem splitWord_cases (word : String) : (splitWord word).2 = none ∧ word = (splitWord word).1 ∨
    ∃ value, (splitWord word).2 = some value ∧ word = (splitWord word).1 ++ "=" ++ value ∧
      '=' ∉ (splitWord word).1.toList := by
  rw [splitWord]
  rcases Text.cutAt?_cases '=' word with ⟨hcut, -⟩ | ⟨before, after, hcut, hword, hbefore⟩
  · rw [hcut]
    exact .inl ⟨rfl, rfl⟩
  · rw [hcut]
    refine .inr ⟨after, rfl, ?_, hbefore⟩
    rw [← String.toList_inj, hword]
    simp

/-- What is attached to a name does not depend on the name. -/
theorem exists_splitWord_append (hsuffix : suffix = "" ∨ Text.beginsWith suffix "=" = true) :
    ∃ attached, ∀ name : String, '=' ∉ name.toList →
      splitWord (name ++ suffix) = (name, attached) := by
  rcases hsuffix with rfl | hbegins
  · refine ⟨none, fun name hequals => ?_⟩
    obtain ⟨hname, hnone⟩ := (eq_iff_splitWord hequals).mp rfl
    rw [String.append_empty, Prod.ext_iff]
    exact ⟨hname, hnone⟩
  · obtain ⟨value, hvalue⟩ := Text.beginsWith_iff.mp hbegins
    refine ⟨some (String.ofList value), fun name hequals => ?_⟩
    have hword : Text.beginsWith (name ++ suffix) (name ++ "=") = true := by
      rw [Text.beginsWith_iff, String.toList_append, String.toList_append, ← hvalue]
      exact ⟨value, List.append_assoc _ _ _⟩
    obtain ⟨hname, hsome⟩ := (beginsWith_iff_splitWord hequals).mp hword
    rcases splitWord_cases (name ++ suffix) with ⟨hnone, -⟩ | ⟨attached, hattached, hsplit, -⟩
    · exact absurd hnone hsome
    · rw [hname, ← String.toList_inj] at hsplit
      simp only [String.toList_append, List.append_assoc, List.append_cancel_left_eq, ← hvalue]
        at hsplit
      rw [Prod.ext_iff]
      exact ⟨hname, by rw [hattached, hsplit, String.ofList_toList]⟩

/-! ## Names that stand for option strings -/

/-- A name that stands for a long or old-style option string gives the option of the string,
with what is attached to the name. -/
theorem readOptionWord_of_spells (hnamed : table.named? token = some entry)
    (hkind : OptionKind.of token ≠ .short) (hlength : 3 ≤ (splitWord word).1.length)
    (hspells : Spellings.Spells table.tokens minOptionBeginning enabled (splitWord word).1 token) :
    (table.withAbbreviations enabled).readOptionWord word =
      readEntry entry (splitWord word).2 := by
  have hoption := option_of_named? hnamed
  have hlookup : (table.withAbbreviations enabled).lookup? (OptionKind.of token)
      (splitWord word).1 = some entry := by
    rw [lookup?_withAbbreviations hkind, namedOf?_eq_some, hoption]
    exact ⟨⟨hnamed, rfl⟩, hspells⟩
  have hdashes := OptionKind.of_eq_long_iff (prefix_fst_splitWord word)
    hspells.prefix_and_length.1 (Nat.le_of_succ_le hlength)
  rw [readOptionWord]
  by_cases hword : Text.beginsWith word "--" = true
  · have hof : OptionKind.of token = .long := by simp [OptionKind.of, hdashes.mp hword]
    rw [hof] at hlookup
    simp only [hword, ↓reduceIte, hlookup]
  · have hof : OptionKind.of token = .oldStyle := by
      have htwo : token.length ≠ 2 := by
        intro htwo
        simp [OptionKind.of, (not_congr hdashes).mp hword, htwo] at hkind
      simp [OptionKind.of, (not_congr hdashes).mp hword, htwo]
    have hlong : 2 < word.length := by
      have hle := (prefix_fst_splitWord word).length_le
      rw [String.length_toList, String.length_toList] at hle
      omega
    rw [hof] at hlookup
    simp only [hword, Bool.false_eq_true, ↓reduceIte, hlong, hlookup]

end OptionTable
end ShellCompletion
