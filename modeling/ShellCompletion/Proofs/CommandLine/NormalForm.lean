import ShellCompletion.Proofs.CommandLine.OptionList

/-!
# The normal form of option lists

An option list may have empty items and several items for one option string. Its normal form has
the first item of every option string and nothing else. The table of a list is written as the
normal form of the list, from which the same table is read. A list is rejected for an item that
declares no option string.
-/

namespace ShellCompletion.OptionTable

variable {table : OptionTable} {entries : List OptionEntry} {item list : String}

/-- The option string of an item: the item less the suffix of an optional value, else less the
suffix of a required value. -/
def optionOf (item : String) : String :=
  if "=?".toList <:+ item.toList then String.ofList item.toList.dropLast.dropLast
  else if "=".toList <:+ item.toList then String.ofList item.toList.dropLast
  else item

/-- The items whose option string no item before them has. -/
def firstItems (items : List String) : List String :=
  (items.zipIdx.filter fun (item, place) =>
    !((items.take place).map optionOf).contains (optionOf item)).map (·.1)

/-- Whether an item is rejected: what it has for an option string does not begin with a dash, or is
nothing but one or two dashes. -/
def IsRejected (item : String) : Prop :=
  (optionOf item).toList.head? ≠ some '-' ∨ optionOf item = "-" ∨ optionOf item = "--"

instance (item : String) : Decidable (IsRejected item) :=
  inferInstanceAs (Decidable (_ ∨ _))

/-! ## Items -/

/-- An item is read as an entry for its option string. -/
theorem option_splitItem (item : String) : (splitItem item).option = optionOf item := by
  rw [splitItem, optionOf]
  cases hoptional : Text.without? item Arity.optional.suffix with
  | some option =>
    have hitem := Text.without?_eq_some.mp hoptional
    have hends : "=?".toList <:+ item.toList := by
      rw [hitem, String.toList_append]
      exact List.suffix_append _ _
    rw [if_pos hends, hitem, String.toList_append]
    simp [Arity.suffix, List.dropLast_append_of_ne_nil]
  | none =>
    have hoptional : ¬ "=?".toList <:+ item.toList := Text.without?_eq_none.mp hoptional
    rw [if_neg hoptional]
    cases hrequired : Text.without? item Arity.required.suffix with
    | some option =>
      have hitem := Text.without?_eq_some.mp hrequired
      have hends : "=".toList <:+ item.toList := by
        rw [hitem, String.toList_append]
        exact List.suffix_append _ _
      rw [if_pos hends, hitem, String.toList_append]
      simp [Arity.suffix]
    | none =>
      have hrequired : ¬ "=".toList <:+ item.toList := Text.without?_eq_none.mp hrequired
      rw [if_neg hrequired]

/-- A list may have an option string unless its item is rejected. -/
theorem isListable_splitItem : isListable (splitItem item).option = true ↔ ¬ IsRejected item := by
  have hdash : Text.beginsWith (optionOf item) "-" = true ↔
      (optionOf item).toList.head? = some '-' := by
    rw [Text.beginsWith_iff]
    cases (optionOf item).toList <;> simp [List.cons_prefix_cons, @eq_comm _ '-']
  rw [option_splitItem, IsRejected, isListable, Bool.and_eq_true, Bool.and_eq_true, hdash,
    bne_iff_ne, bne_iff_ne, not_or, not_or, not_not, and_assoc]

/-- An item is read as its entry unless it is rejected. -/
theorem readItem_eq_ok {entry : OptionEntry} :
    readItem item = .ok entry ↔ ¬ IsRejected item ∧ entry = splitItem item := by
  rw [readItem, ← isListable_splitItem]
  split
  · rename_i hlistable
    simp [hlistable, eq_comm]
  · rename_i hlistable
    simp [hlistable]

/-! ## First items -/

/-- The option strings of a table are those of the entries that were put into it. -/
theorem mem_options_ofEntries {string : String} :
    string ∈ (ofEntries entries).entries.map (·.option) ↔ string ∈ entries.map (·.option) := by
  have hnamed := named?_ofEntries entries string
  have hsome := congrArg Option.isSome hnamed
  rw [named?, Bool.eq_iff_iff, List.find?_isSome, List.find?_isSome] at hsome
  simpa only [List.mem_map, beq_iff_eq] using hsome

/-- Another item is kept unless an item before it has its option string. -/
theorem firstItems_append_singleton (items : List String) (last : String) :
    firstItems (items ++ [last]) =
      firstItems items ++ if optionOf last ∈ items.map optionOf then [] else [last] := by
  have hbefore : ∀ pair ∈ items.zipIdx, (items ++ [last]).take pair.2 = items.take pair.2 := by
    intro pair hpair
    have hplace := List.snd_lt_of_mem_zipIdx hpair
    exact List.take_append_of_le_length (by omega)
  have hlast : (items ++ [last]).take items.length = items := by simp
  rw [firstItems, firstItems, List.zipIdx_append, List.filter_append, List.map_append]
  congr 1
  · refine congrArg _ (List.filter_congr fun pair hpair => ?_)
    simp only [hbefore pair hpair]
  · by_cases hmem : optionOf last ∈ items.map optionOf <;> simp [hmem]

/-- The table of some items is written with the first items. -/
theorem map_writeItem_ofEntries (items : List String) :
    (ofEntries (items.map splitItem)).entries.map writeItem = firstItems items := by
  induction items using List.reverseRecOn with
  | nil => rfl
  | append_singleton items last ih =>
    have hmem : (ofEntries (items.map splitItem)).entries.any (·.option == (splitItem last).option)
        = true ↔ optionOf last ∈ items.map optionOf := by
      have hoptions : (items.map splitItem).map (·.option) = items.map optionOf := by
        rw [List.map_map]
        exact List.map_congr_left fun item _ => option_splitItem item
      rw [← hoptions, ← mem_options_ofEntries, ← option_splitItem]
      simp
    rw [firstItems_append_singleton, List.map_append, List.map_singleton,
      entries_ofEntries_append_singleton, insert]
    by_cases hthere : optionOf last ∈ items.map optionOf
    · rw [if_pos (hmem.mpr hthere), if_pos hthere, ih, List.append_nil]
    · rw [if_neg (hmem.not.mpr hthere), if_neg hthere, List.map_append, ih, List.map_singleton,
        writeItem_splitItem]

/-! ## Lists -/

/-- A list is read as the table of its items unless one of them is rejected. -/
theorem parse_eq_ok : parse list = .ok table ↔
    (∀ item ∈ items list, ¬ IsRejected item) ∧ table = ofEntries ((items list).map splitItem) := by
  have hread (haccepted : ∀ item ∈ items list, ¬ IsRejected item) :
      (items list).mapM readItem = .ok ((items list).map splitItem) :=
    mapM_eq_ok_map fun item hitem => readItem_eq_ok.mpr ⟨haccepted item hitem, rfl⟩
  rw [parse, map_eq_ok]
  constructor
  · rintro ⟨entries, hentries, rfl⟩
    have haccepted : ∀ item ∈ items list, ¬ IsRejected item := by
      intro item hitem
      obtain ⟨entry, hentry⟩ := exists_mapM_eq_ok.mp ⟨entries, hentries⟩ item hitem
      exact (readItem_eq_ok.mp hentry).1
    rw [hread haccepted] at hentries
    cases hentries
    exact ⟨haccepted, rfl⟩
  · rintro ⟨haccepted, rfl⟩
    exact ⟨_, hread haccepted, rfl⟩

/-- The table of a list is written as the items of the list that are not empty, less every item
whose option string an earlier item has, and the same table is read from that. A list is
rejected exactly for an item that is not empty and declares no option string. -/
theorem parse_normal_form (list : String) :
    (∀ table, parse list = .ok table →
      table.render = ",".intercalate (firstItems (items list)) ∧
        parse table.render = .ok table) ∧
      ((∃ error, parse list = .error error) ↔ ∃ item ∈ items list, IsRejected item) := by
  constructor
  · intro table hparse
    obtain ⟨haccepted, rfl⟩ := parse_eq_ok.mp hparse
    refine ⟨by rw [render, map_writeItem_ofEntries], ?_⟩
    refine parse_render (nodup_ofEntries _) (fun entry hentry => ?_)
      fun entry hentry => isPlain_of_parse hparse hentry
    obtain ⟨item, hitem, rfl⟩ := List.mem_map.mp (mem_of_mem_ofEntries hentry)
    exact isListable_splitItem.mpr (haccepted item hitem)
  · constructor
    · rintro ⟨error, hparse⟩
      by_contra hnone
      have haccepted : ∀ item ∈ items list, ¬ IsRejected item := by simpa using hnone
      rw [parse_eq_ok.mpr ⟨haccepted, rfl⟩] at hparse
      cases hparse
    · rintro ⟨item, hitem, hrejected⟩
      cases hparse : parse list with
      | error error => exact ⟨error, rfl⟩
      | ok table => exact absurd hrejected ((parse_eq_ok.mp hparse).1 item hitem)

/-- A list with empty items, with a string that has two arities and with a string that ends like a
suffix is written in normal form. -/
theorem parse_normal_form_repeated :
    let list := ",-o=,--all,,-o,-x==?,-o=?,"
    let table : OptionTable :=
      { entries := [⟨"-o", .required⟩, ⟨"--all", .absent⟩, ⟨"-x=", .optional⟩] }
    parse list = .ok table ∧
      firstItems (items list) = ["-o=", "--all", "-x==?"] ∧
      table.render = ",".intercalate (firstItems (items list)) ∧
        parse table.render = .ok table := by
  intro list table
  have haccepted : ∀ item ∈ items list, ¬ IsRejected item := by decide +kernel
  have htable : table = ofEntries ((items list).map splitItem) := by decide +kernel
  have hparse : parse list = .ok table := parse_eq_ok.mpr ⟨haccepted, htable⟩
  exact ⟨hparse, by decide +kernel, (parse_normal_form list).1 table hparse⟩

end ShellCompletion.OptionTable
