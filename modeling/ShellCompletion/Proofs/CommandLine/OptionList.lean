import Mathlib.Data.List.Induction
import Mathlib.Data.List.Nodup
import ShellCompletion.Proofs.Attempts
import ShellCompletion.Proofs.CommandLine.Table
import ShellCompletion.Proofs.CommandOption
import ShellCompletion.Proofs.Text.Words

/-!
# Option lists

A table is written as an option list and read from one. An entry comes back if its option
string has no comma and does not end like the suffix of another arity; no other entry is ever
read from a list.
-/

namespace ShellCompletion

/-! ## What is left before an end -/

namespace Text

/-- What is left of a list after its beginning. -/
theorem isPrefixOf?_eq_some {part chars rest : List Char} :
    part.isPrefixOf? chars = some rest ↔ chars = part ++ rest := by
  induction part generalizing chars with
  | nil => simp [List.isPrefixOf?]
  | cons first part ih =>
    cases chars with
    | nil => simp [List.isPrefixOf?]
    | cons char chars =>
      rw [List.isPrefixOf?]
      by_cases hfirst : first = char
      · subst hfirst
        simp [ih]
      · have hother : char ≠ first := Ne.symm hfirst
        simp [hfirst, hother]

/-- What is left of a text before its end. -/
theorem without?_eq_some {text part rest : String} :
    without? text part = some rest ↔ text = rest ++ part := by
  have hends : ∀ chars, part.toList.isSuffixOf? text.toList = some chars ↔
      text.toList = chars ++ part.toList := by
    intro chars
    rw [List.isSuffixOf?, Option.map_eq_some_iff]
    simp only [isPrefixOf?_eq_some]
    constructor
    · rintro ⟨rest, hrest, rfl⟩
      rw [← List.reverse_inj, hrest, List.reverse_append, List.reverse_reverse]
    · intro htext
      refine ⟨chars.reverse, ?_, List.reverse_reverse chars⟩
      rw [htext, List.reverse_append]
  rw [without?, Option.map_eq_some_iff]
  simp only [hends]
  constructor
  · rintro ⟨chars, hchars, rfl⟩
    rw [← String.toList_inj, hchars, String.toList_append, String.toList_ofList]
  · rintro rfl
    exact ⟨rest.toList, String.toList_append, String.ofList_toList⟩

/-- Nothing is left of a text that ends in another way. -/
theorem without?_eq_none {text part : String} :
    without? text part = none ↔ ¬ part.toList <:+ text.toList := by
  rw [Option.eq_none_iff_forall_ne_some]
  constructor
  · rintro hnone ⟨rest, hrest⟩
    refine hnone (String.ofList rest) (without?_eq_some.mpr ?_)
    rw [← String.toList_inj, String.toList_append, String.toList_ofList, hrest]
  · intro hends rest hrest
    rw [without?_eq_some.mp hrest, String.toList_append] at hends
    exact hends (List.suffix_append _ _)

end Text

/-- Whether an entry can be written in an option list: its string has no comma and, if there is no
suffix for its arity, does not end in the suffix of another one. -/
def OptionEntry.IsPlain (entry : OptionEntry) : Prop :=
  ',' ∉ entry.option.toList ∧
    (entry.arity = .absent → ∀ arity ∈ [Arity.required, Arity.optional],
      ¬ arity.suffix.toList <:+ entry.option.toList)

instance (entry : OptionEntry) : Decidable entry.IsPlain :=
  inferInstanceAs (Decidable (_ ∧ (_ → _)))

/-- An option list may have every string of an option. -/
theorem CommandOption.isListable_of_mem {option : CommandOption} {string : String}
    (hstring : string ∈ option.strings) : OptionTable.isListable string = true := by
  obtain ⟨hdash, hone, htwo⟩ := CommandOption.dashed_of_mem hstring
  simp [OptionTable.isListable, hdash, hone, htwo]

namespace OptionTable

variable {table : OptionTable} {entries : List OptionEntry} {entry other : OptionEntry}
  {item list : String}

/-! ## Items -/

/-- An item for an entry that can be written is read as the entry. -/
theorem splitItem_writeItem (hplain : entry.IsPlain) : splitItem (writeItem entry) = entry := by
  obtain ⟨option, arity⟩ := entry
  obtain ⟨-, hends⟩ := hplain
  cases arity with
  | absent =>
    have hoptional : Text.without? (writeItem ⟨option, .absent⟩) Arity.optional.suffix = none := by
      rw [Text.without?_eq_none, writeItem, Arity.suffix, String.append_empty]
      exact hends rfl .optional (by simp)
    have hrequired : Text.without? (writeItem ⟨option, .absent⟩) Arity.required.suffix = none := by
      rw [Text.without?_eq_none, writeItem, Arity.suffix, String.append_empty]
      exact hends rfl .required (by simp)
    rw [splitItem, hoptional, hrequired, writeItem, Arity.suffix, String.append_empty]
  | required =>
    have hoptional :
        Text.without? (writeItem ⟨option, .required⟩) Arity.optional.suffix = none := by
      rw [Text.without?_eq_none]
      rintro ⟨rest, hrest⟩
      have hlast := congrArg List.getLast? hrest
      simp [writeItem, Arity.suffix] at hlast
    have hrequired :
        Text.without? (writeItem ⟨option, .required⟩) Arity.required.suffix = some option :=
      Text.without?_eq_some.mpr rfl
    rw [splitItem, hoptional, hrequired]
  | optional =>
    have hoptional :
        Text.without? (writeItem ⟨option, .optional⟩) Arity.optional.suffix = some option :=
      Text.without?_eq_some.mpr rfl
    rw [splitItem, hoptional]

/-- A flag whose string ends like a suffix is read as an option with a value. -/
example : splitItem (writeItem ⟨"-x=", .absent⟩) = ⟨"-x", .required⟩ := by decide +kernel

/-- The item of an entry is the only one that is read as the entry. -/
theorem writeItem_splitItem (item : String) : writeItem (splitItem item) = item := by
  rw [splitItem]
  split
  · rename_i option hoptional
    exact (Text.without?_eq_some.mp hoptional).symm
  · split
    · rename_i option hrequired
      exact (Text.without?_eq_some.mp hrequired).symm
    · exact String.append_empty

/-- The item of an entry has no other commas than its string. -/
theorem comma_notMem_writeItem (hcomma : ',' ∉ entry.option.toList) :
    ',' ∉ (writeItem entry).toList := by
  rw [writeItem, String.toList_append, List.mem_append]
  rintro (hmem | hmem)
  · exact hcomma hmem
  · cases harity : entry.arity <;> simp [harity, Arity.suffix] at hmem

/-- An entry that is read from an item without a comma can be written. -/
theorem isPlain_splitItem (hcomma : ',' ∉ item.toList) : (splitItem item).IsPlain := by
  constructor
  · rw [← writeItem_splitItem item, writeItem, String.toList_append] at hcomma
    exact fun hmem => hcomma (List.mem_append_left _ hmem)
  · intro habsent arity harity
    rw [splitItem] at habsent ⊢
    split at habsent
    · cases habsent
    · rename_i hoptional
      split at habsent
      · cases habsent
      · rename_i hrequired
        rcases List.mem_cons.mp harity with rfl | harity
        · exact Text.without?_eq_none.mp hrequired
        · rw [List.mem_singleton.mp harity]
          exact Text.without?_eq_none.mp hoptional

/-! ## Tables -/

/-- The last of several entries is put into the table of those before it. -/
theorem entries_ofEntries_append_singleton (entries : List OptionEntry) (entry : OptionEntry) :
    (ofEntries (entries ++ [entry])).entries = insert (ofEntries entries).entries entry := by
  simp [ofEntries, List.foldl_append]

/-- A table has only entries that were put into it. -/
theorem mem_of_mem_ofEntries (hentry : entry ∈ (ofEntries entries).entries) : entry ∈ entries := by
  induction entries using List.reverseRecOn with
  | nil => exact hentry
  | append_singleton entries last ih =>
    rw [entries_ofEntries_append_singleton, insert] at hentry
    split at hentry
    · exact List.mem_append_left _ (ih hentry)
    · rcases List.mem_append.mp hentry with hbefore | hlast
      · exact List.mem_append_left _ (ih hbefore)
      · exact List.mem_append_right _ hlast

/-- The entries of a table of options are for strings of the options. -/
theorem exists_of_mem_ofOptions {options : List CommandOption}
    (hentry : entry ∈ (ofOptions options).entries) :
    ∃ option ∈ options, entry.option ∈ option.strings := by
  obtain ⟨option, hoption, hput⟩ := List.mem_flatMap.mp (mem_of_mem_ofEntries hentry)
  obtain ⟨string, hstring, rfl⟩ := List.mem_map.mp hput
  exact ⟨option, hoption, hstring⟩

/-- A table has each option string once. -/
theorem nodup_ofEntries (entries : List OptionEntry) :
    ((ofEntries entries).entries.map (·.option)).Nodup := by
  induction entries using List.reverseRecOn with
  | nil => exact List.nodup_nil
  | append_singleton entries last ih =>
    rw [entries_ofEntries_append_singleton, insert]
    split
    · exact ih
    · rename_i hnew
      have hnotMem : last.option ∉ (ofEntries entries).entries.map (·.option) := by
        simpa using hnew
      rw [List.map_append]
      exact ih.append (List.nodup_singleton _) (List.disjoint_singleton.mpr hnotMem)

/-- Where each option string stands once, every entry is the one of its string. -/
theorem named?_eq_some_iff {string : String} (hnodup : (table.entries.map (·.option)).Nodup) :
    table.named? string = some entry ↔ entry ∈ table.entries ∧ entry.option = string := by
  constructor
  · intro hnamed
    exact ⟨List.mem_of_find?_eq_some hnamed, option_of_named? hnamed⟩
  · rintro ⟨hentry, rfl⟩
    have hsome : (table.named? entry.option).isSome :=
      List.find?_isSome.mpr ⟨entry, hentry, beq_self_eq_true entry.option⟩
    obtain ⟨found, hfound⟩ := Option.isSome_iff_exists.mp hsome
    have hsame := option_of_named? hfound
    rw [hfound, List.inj_on_of_nodup_map hnodup (List.mem_of_find?_eq_some hfound) hentry hsame]

/-- Entries with different option strings are all kept. -/
theorem entries_ofEntries (hnodup : (entries.map (·.option)).Nodup) :
    (ofEntries entries).entries = entries := by
  induction entries using List.reverseRecOn with
  | nil => rfl
  | append_singleton entries last ih =>
    rw [List.map_append, List.nodup_append'] at hnodup
    obtain ⟨hbefore, -, hdisjoint⟩ := hnodup
    have hnew : last.option ∉ entries.map (·.option) := List.disjoint_singleton.mp hdisjoint
    have hany : ¬ entries.any (·.option == last.option) := by simpa using hnew
    rw [entries_ofEntries_append_singleton, ih hbefore, insert, if_neg hany]

/-! ## Reading a list -/

/-- The entries of a table that is read from a list can be written in one. -/
theorem isPlain_of_parse (hparse : parse list = .ok table) (hentry : entry ∈ table.entries) :
    entry.IsPlain := by
  obtain ⟨read, hread, rfl⟩ := map_eq_ok.mp hparse
  obtain ⟨item, hitem, hreadItem⟩ := (mem_mapM hread).mp (mem_of_mem_ofEntries hentry)
  have hcomma : ',' ∉ item.toList := by
    intro hmem
    have hpiece := Text.isSeparator_of_mem_split (List.mem_of_mem_filter hitem) ',' hmem
    simp at hpiece
  rw [readItem] at hreadItem
  split at hreadItem
  · cases hreadItem
    exact isPlain_splitItem hcomma
  · cases hreadItem

/-- A table with different option strings that can all be written is read from its list. -/
theorem parse_render (hnodup : (table.entries.map (·.option)).Nodup)
    (hlistable : ∀ entry ∈ table.entries, isListable entry.option = true)
    (hplain : ∀ entry ∈ table.entries, entry.IsPlain) :
    parse table.render = .ok ⟨table.entries, none⟩ := by
  have hpieces : ∀ item ∈ table.entries.map writeItem,
      item ≠ "" ∧ ∀ c ∈ item.toList, (c == ',') = false := by
    intro item hitem
    obtain ⟨entry, hentry, rfl⟩ := List.mem_map.mp hitem
    constructor
    · intro hempty
      have hdash := hlistable entry hentry
      rw [writeItem, String.append_eq_empty_iff] at hempty
      simp [isListable, hempty.1, Text.beginsWith] at hdash
    · intro c hc
      rw [beq_eq_false_iff_ne]
      rintro rfl
      exact comma_notMem_writeItem (hplain entry hentry).1 hc
  have hmark : ",".toList = [','] := rfl
  have hitems : items table.render = table.entries.map writeItem :=
    Text.filter_split_intercalate hmark (by simp) hpieces
  have hread : (items table.render).mapM readItem = .ok table.entries := by
    rw [hitems, mapM_eq_ok, List.forall₂_map_left_iff, List.forall₂_same]
    intro entry hentry
    rw [readItem, splitItem_writeItem (hplain entry hentry)]
    exact if_pos (hlistable entry hentry)
  have htable : ofEntries table.entries = ⟨table.entries, none⟩ :=
    congrArg (OptionTable.mk · none) (entries_ofEntries hnodup)
  rw [parse, hread, ← htable]
  rfl

/-- A table with different option strings is read from its list exactly if all its entries can be
written. -/
theorem exists_parse_render_iff (hnodup : (table.entries.map (·.option)).Nodup)
    (hlistable : ∀ entry ∈ table.entries, isListable entry.option = true) :
    (∃ read, parse table.render = .ok read ∧ read.entries = table.entries) ↔
      ∀ entry ∈ table.entries, entry.IsPlain := by
  constructor
  · rintro ⟨read, hparse, hsame⟩ entry hentry
    rw [← hsame] at hentry
    exact isPlain_of_parse hparse hentry
  · intro hplain
    exact ⟨_, parse_render hnodup hlistable hplain, rfl⟩

end OptionTable
end ShellCompletion
