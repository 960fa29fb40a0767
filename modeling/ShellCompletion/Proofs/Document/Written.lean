import ShellCompletion.Document.Basic
import ShellCompletion.Proofs.Attempts
import ShellCompletion.Proofs.Json.Data

/-!
# Reading documents that were written

A document is written with its default fields left out. Reading what was written gives
the same document again, as long as data keeps the list forms in it. The fields are
read one entry after the other; `RecordShape.Adds` says what a run of entries does to
the record, so that entries may be present or missing without a case for each choice.
-/

namespace ShellCompletion

namespace RecordShape

variable {α : Type}

/-- Entries that give some of the named fields, each at most once, take one record to
another, whatever other fields were read before. -/
def Adds (shape : RecordShape α) (entries : List (String × Json)) (names : List String)
    (before after : α) : Prop :=
  ∀ seen : List String, (∀ name ∈ names, name ∉ seen) →
    ∃ seen', (Json.toDataEntries entries).foldlM shape.readEntry (before, seen) =
        .ok (after, seen') ∧
      (∀ name ∈ seen, name ∈ seen') ∧ ∀ name ∈ seen', name ∈ seen ∨ name ∈ names

theorem toDataEntries_append (first second : List (String × Json)) :
    Json.toDataEntries (first ++ second) =
      Json.toDataEntries first ++ Json.toDataEntries second := by
  induction first with
  | nil => rfl
  | cons entry rest ih => simp [Json.toDataEntries, ih]

/-- Reading nothing changes nothing. -/
theorem Adds.nil (shape : RecordShape α) (record : α) : shape.Adds [] [] record record :=
  fun seen _ => ⟨seen, rfl, fun _ h => h, fun _ h => .inl h⟩

/-- Reading one entry puts the field into the record and remembers its name. -/
theorem foldlM_readEntry_single {β : Type} {json : Json} {field : FieldShape α}
    {read : Data → Except ShapeError β} {put : β → α → α} {value : β} (shape : RecordShape α)
    (key : String) (before : α) (seen : List String) (hjson : read json.toData = .ok value)
    (hfield : shape.fieldOf (.text key) = .ok (some field))
    (hread : ∀ data record, field.read data record = (read data).map (put · record))
    (hseen : field.name ∉ seen) :
    (Json.toDataEntries [(key, json)]).foldlM shape.readEntry (before, seen) =
      .ok (put value before, field.name :: seen) := by
  simp [Json.toDataEntries, readEntry, hfield, hseen, hread, hjson, bind, Except.bind, pure,
    Except.pure, Except.map]

/-- Reading entries of other fields after some. -/
theorem Adds.append {shape : RecordShape α} {first second : List (String × Json)}
    {names others : List String} {before between after : α}
    (hfirst : shape.Adds first names before between)
    (hsecond : shape.Adds second others between after)
    (hdisjoint : ∀ name ∈ others, name ∉ names) :
    shape.Adds (first ++ second) (names ++ others) before after := by
  intro seen hseen
  obtain ⟨seen₁, hrun₁, hkept₁, hnew₁⟩ :=
    hfirst seen fun name hname => hseen name (List.mem_append_left _ hname)
  have hunseen : ∀ name ∈ others, name ∉ seen₁ := by
    intro name hname hmem
    rcases hnew₁ name hmem with hold | hnew
    · exact hseen name (List.mem_append_right _ hname) hold
    · exact hdisjoint name hname hnew
  obtain ⟨seen₂, hrun₂, hkept₂, hnew₂⟩ := hsecond seen₁ hunseen
  refine ⟨seen₂, ?_, fun name hname => hkept₂ name (hkept₁ name hname), ?_⟩
  · rw [toDataEntries_append, List.foldlM_append, hrun₁]
    exact hrun₂
  · intro name hname
    rcases hnew₂ name hname with hold | hnew
    · rcases hnew₁ name hold with hold | hnew
      · exact .inl hold
      · exact .inr (List.mem_append_left _ hnew)
    · exact .inr (List.mem_append_right _ hnew)

/-- A record is read from entries that give its fields, if the required ones are among
those that were read first. -/
theorem Adds.read_object {shape : RecordShape α} {entries : List (String × Json)}
    {given names : List String} {between after : α} (required : List (String × Json))
    (hrequired : (Json.toDataEntries required).foldlM shape.readEntry (shape.initial, []) =
      .ok (between, given))
    (hadds : shape.Adds entries names between after) (hnames : ∀ name ∈ names, name ∉ given)
    (hgiven : ∀ field ∈ shape.fields, field.required = true → field.name ∈ given) :
    shape.read (Json.object (required ++ entries)).toData = .ok after := by
  obtain ⟨seen, hrun, hkept, -⟩ := hadds given hnames
  have hcomplete :
      (shape.fields.find? fun field => field.required && !seen.contains field.name) = none := by
    rw [List.find?_eq_none]
    intro field hfield
    simp only [Bool.and_eq_true, Bool.not_eq_true', List.contains_eq_mem, decide_eq_false_iff_not,
      not_and, Classical.not_not]
    exact fun h => hkept _ (hgiven field hfield h)
  change shape.ofEntries (Json.toDataEntries (required ++ entries)) = _
  simp only [ofEntries, toDataEntries_append, List.foldlM_append, hrequired, bind, Except.bind,
    hrun, hcomplete, pure, Except.pure]

/-- What is written for a field gives its value to a reader: nothing is written for the
default, else one entry that is read as the value. -/
def Gives {β : Type} (key : String) (read : Data → Except ShapeError β) (default value : β)
    (written : List (String × Json)) : Prop :=
  (written = [] ∧ value = default) ∨
    ∃ json : Json, written = [(key, json)] ∧ read json.toData = .ok value

/-- A field that is written faithfully is put into the record after others. -/
theorem Adds.field {shape : RecordShape α} {β : Type} {key : String} {field : FieldShape α}
    {read : Data → Except ShapeError β} {put : β → α → α} {default value : β}
    {entries written : List (String × Json)} {names : List String} {before between : α}
    (hadds : shape.Adds entries names before between)
    (hgives : Gives key read default value written)
    (hfield : shape.fieldOf (.text key) = .ok (some field))
    (hread : ∀ data record, field.read data record = (read data).map (put · record))
    (hdefault : put default between = between) (hnew : field.name ∉ names) :
    shape.Adds (entries ++ written) (names ++ [field.name]) before (put value between) := by
  have hwritten : shape.Adds written [field.name] between (put value between) := by
    intro seen hseen
    rcases hgives with ⟨rfl, rfl⟩ | ⟨json, rfl, hjson⟩
    · exact ⟨seen, by rw [hdefault]; rfl, fun _ h => h, fun _ h => .inl h⟩
    · refine ⟨_, foldlM_readEntry_single _ _ _ _ hjson hfield hread (hseen _ List.mem_cons_self),
        fun _ h => List.mem_cons_of_mem _ h, ?_⟩
      intro name hname
      rcases List.mem_cons.mp hname with rfl | hname
      · exact .inr List.mem_cons_self
      · exact .inl hname
  refine hadds.append hwritten fun name hname => ?_
  rwa [List.mem_singleton.mp hname]

end RecordShape

open RecordShape

/-- Reading the items of a list one by one. -/
theorem mapM_toDataItems {β : Type} {read : Data → Except ShapeError β} {write : β → Json}
    {items : List β} (hread : ∀ item ∈ items, read (write item).toData = .ok item) :
    (Json.toDataItems (items.map write)).mapM read = .ok items := by
  induction items with
  | nil => rfl
  | cons item rest ih =>
    have hitem := hread item List.mem_cons_self
    have hrest := ih fun next hnext => hread next (List.mem_cons_of_mem _ hnext)
    simp [Json.toDataItems, hitem, hrest, bind, Except.bind, pure, Except.pure]

/-- Reading kept JSON values one by one. -/
theorem mapM_toJson_toDataItems {items : List Json} (hkept : Json.AreKept items) :
    (Json.toDataItems items).mapM Data.toJson = .ok items := by
  induction items with
  | nil => rfl
  | cons item rest ih =>
    simp [Json.toDataItems, Json.toJson_toData hkept.1, ih hkept.2, bind, Except.bind, pure,
      Except.pure]

theorem gives_textEntry (key value : String) :
    Gives key Data.asText "" value (textEntry key value) := by
  unfold textEntry
  split
  · rename_i hempty
    exact .inl ⟨rfl, by simpa using hempty⟩
  · exact .inr ⟨_, rfl, rfl⟩

theorem gives_optionalEntry (key : String) (value : Option String) :
    Gives key (Data.asOptional Data.asText) none value (optionalEntry key value) := by
  cases value with
  | none => exact .inl ⟨rfl, rfl⟩
  | some text => exact .inr ⟨_, rfl, rfl⟩

theorem gives_switchEntry (key : String) (switch : Tristate) :
    Gives key Tristate.ofData .inherit switch (switchEntry key switch) := by
  cases switch with
  | inherit => exact .inl ⟨rfl, rfl⟩
  | set value => exact .inr ⟨_, rfl, rfl⟩

theorem gives_listEntry {β : Type} {read : Data → Except ShapeError β} {items : List β}
    (key : String) (write : β → Json)
    (hread : ∀ item ∈ items, read (write item).toData = .ok item) :
    Gives key (Data.asList read) [] items (listEntry key (items.map write)) := by
  cases items with
  | nil => exact .inl ⟨rfl, rfl⟩
  | cons item rest => exact .inr ⟨_, rfl, mapM_toDataItems hread⟩

theorem gives_completeEntry {complete : Option (List Json)}
    (hkept : ∀ items ∈ complete, Json.AreKept items) :
    Gives "complete" completeOfData none complete (completeEntry complete) := by
  cases complete with
  | none => exact .inl ⟨rfl, rfl⟩
  | some items =>
    refine .inr ⟨_, rfl, ?_⟩
    simp [completeOfData, Json.toData, Data.asOptional, Data.asList,
      mapM_toJson_toDataItems (hkept items rfl), Except.map]

theorem gives_arity (arity : Arity) :
    Gives "takes_args" Arity.ofData .required arity
      (if arity == .required then [] else [("takes_args", arity.toJson)]) := by
  cases arity with
  | required => exact .inl ⟨rfl, rfl⟩
  | absent | optional => exact .inr ⟨_, rfl, rfl⟩

theorem gives_repeatable (repeatable : Bool) :
    Gives "repeatable" Data.asBool false repeatable
      (if repeatable then [("repeatable", .bool true)] else []) := by
  cases repeatable with
  | false => exact .inl ⟨rfl, rfl⟩
  | true => exact .inr ⟨_, rfl, rfl⟩

/-- A slot that was written is read back. -/
theorem SlotDocument.read_toJson (slot : SlotDocument) :
    SlotDocument.shape.read slot.toJson.toData = .ok slot := by
  obtain ⟨metavar, help⟩ := slot
  have hhelp : shape.Adds _ ["help"] { metavar } { metavar, help } :=
    (Adds.nil shape _).field (gives_textEntry "help" help) rfl (fun _ _ => rfl) rfl
      (by decide)
  exact Adds.read_object [("metavar", .text metavar)] rfl hhelp
    (by decide) (by decide)

/-- An option that was written is read back, if data keeps its list form. -/
theorem OptionDocument.read_toJson (option : OptionDocument)
    (hkept : ∀ items ∈ option.complete, Json.AreKept items) :
    OptionDocument.shape.read option.toJson.toData = .ok option := by
  obtain ⟨strings, metavar, help, arity, group, repeatable, complete, when⟩ := option
  have hread : Data.asList Data.asText (Json.texts strings).toData = .ok strings :=
    mapM_toDataItems fun _ _ => rfl
  have hstrings := foldlM_readEntry_single shape "option_strings" shape.initial [] hread rfl
    (fun _ _ => rfl) List.not_mem_nil
  have hmetavar : shape.Adds _ ["metavar"] { optionStrings := strings }
      { optionStrings := strings, metavar } :=
    (Adds.nil shape _).field (gives_optionalEntry "metavar" metavar) rfl (fun _ _ => rfl)
      rfl (by decide)
  have hhelp : shape.Adds _ ["metavar", "help"] { optionStrings := strings }
      { optionStrings := strings, metavar, help } :=
    hmetavar.field (gives_textEntry "help" help) rfl (fun _ _ => rfl) rfl (by decide)
  have harity : shape.Adds _ ["metavar", "help", "takes_args"] { optionStrings := strings }
      { optionStrings := strings, metavar, help, takesArgs := arity } :=
    hhelp.field (gives_arity arity) rfl (fun _ _ => rfl) rfl (by decide)
  have hgroup : shape.Adds _ ["metavar", "help", "takes_args", "group"]
      { optionStrings := strings }
      { optionStrings := strings, metavar, help, takesArgs := arity, group } :=
    harity.field (gives_optionalEntry "group" group) rfl (fun _ _ => rfl) rfl (by decide)
  have hrepeatable : shape.Adds _ ["metavar", "help", "takes_args", "group", "multiple_option"]
      { optionStrings := strings }
      ⟨strings, metavar, help, arity, group, repeatable, none, none⟩ :=
    hgroup.field (gives_switchEntry "multiple_option" repeatable) rfl (fun _ _ => rfl) rfl
      (by decide)
  have hcomplete : shape.Adds _
      ["metavar", "help", "takes_args", "group", "multiple_option", "complete"]
      { optionStrings := strings }
      ⟨strings, metavar, help, arity, group, repeatable, complete, none⟩ :=
    hrepeatable.field (gives_completeEntry hkept) rfl (fun _ _ => rfl) rfl (by decide)
  have hwhen : shape.Adds _
      ["metavar", "help", "takes_args", "group", "multiple_option", "complete", "when"]
      { optionStrings := strings }
      ⟨strings, metavar, help, arity, group, repeatable, complete, when⟩ :=
    hcomplete.field (gives_optionalEntry "when" when) rfl (fun _ _ => rfl) rfl (by decide)
  have hobject := Adds.read_object _ hstrings hwhen (by decide) (by decide)
  simpa only [toJson, List.cons_append, List.nil_append] using hobject

/-- A positional argument that was written is read back, if data keeps its list form. -/
theorem PositionalDocument.read_toJson (positional : PositionalDocument)
    (hkept : ∀ items ∈ positional.complete, Json.AreKept items) :
    PositionalDocument.shape.read positional.toJson.toData = .ok positional := by
  obtain ⟨number, metavar, help, repeatable, complete, when⟩ := positional
  have hcount : Data.asCount (Json.int number).toData = .ok number := by
    simp [Json.int, Json.toData, Data.asCount]
  have hnumber := foldlM_readEntry_single shape "number" shape.initial [] hcount rfl
    (fun _ _ => rfl) List.not_mem_nil
  have hmetavar : (Json.toDataEntries [("number", .int number), ("metavar", .text metavar)]).foldlM
      shape.readEntry (shape.initial, []) = .ok ({ number, metavar }, ["metavar", "number"]) :=
    bind_eq_ok.mpr ⟨_, hnumber, rfl⟩
  have hhelp : shape.Adds _ ["help"] { number, metavar } { number, metavar, help } :=
    (Adds.nil shape _).field (gives_textEntry "help" help) rfl (fun _ _ => rfl) rfl
      (by decide)
  have hrepeatable : shape.Adds _ ["help", "repeatable"] { number, metavar }
      { number, metavar, help, repeatable } :=
    hhelp.field (gives_repeatable repeatable) rfl (fun _ _ => rfl) rfl (by decide)
  have hcomplete : shape.Adds _ ["help", "repeatable", "complete"] { number, metavar }
      ⟨number, metavar, help, repeatable, complete, none⟩ :=
    hrepeatable.field (gives_completeEntry hkept) rfl (fun _ _ => rfl) rfl (by decide)
  have hwhen : shape.Adds _ ["help", "repeatable", "complete", "when"] { number, metavar }
      ⟨number, metavar, help, repeatable, complete, when⟩ :=
    hcomplete.field (gives_optionalEntry "when" when) rfl (fun _ _ => rfl) rfl (by decide)
  have hobject := Adds.read_object _ hmetavar hwhen (by decide) (by decide)
  simpa only [toJson, List.cons_append, List.nil_append] using hobject

/-- Data keeps the list forms in a document. -/
structure CommandDocument.IsKept (document : CommandDocument) : Prop where
  /-- Those of the options. -/
  options : ∀ option ∈ document.options, ∀ items ∈ option.complete, Json.AreKept items
  /-- Those of the positional arguments. -/
  positionals : ∀ positional ∈ document.positionals, ∀ items ∈ positional.complete,
    Json.AreKept items

/-- A subcommand slot is given by what is written for it. -/
theorem gives_subcommands (slot : Option SlotDocument) :
    Gives "subcommands" (Data.asOptional SlotDocument.shape.read) none slot
      (slot.toList.map fun slot => ("subcommands", slot.toJson)) := by
  cases slot with
  | none => exact .inl ⟨rfl, rfl⟩
  | some slot =>
    refine .inr ⟨_, rfl, ?_⟩
    exact map_eq_ok.mpr ⟨slot, slot.read_toJson, rfl⟩

/-- A document that was written with its default fields left out is read back, if data
keeps its list forms. -/
theorem CommandDocument.read_toJson (document : CommandDocument) (hkept : document.IsKept) :
    CommandDocument.shape.read document.toJson.toData = .ok document := by
  obtain ⟨prog, aliases, help, commands, abbreviations, inherited, slot, options, positionals⟩ :=
    document
  have htext : Data.asText (Json.text prog).toData = .ok prog := rfl
  have hprog := foldlM_readEntry_single shape "prog" shape.initial [] htext rfl
    (fun _ _ => rfl) List.not_mem_nil
  have haliases : shape.Adds _ ["aliases"] { prog } { prog, aliases } :=
    (Adds.nil shape _).field (gives_listEntry "aliases" .text fun _ _ => rfl) rfl
      (fun _ _ => rfl) rfl (by decide)
  have hhelp : shape.Adds _ ["aliases", "help"] { prog } { prog, aliases, help } :=
    haliases.field (gives_textEntry "help" help) rfl (fun _ _ => rfl) rfl (by decide)
  have hcommands : shape.Adds _ ["aliases", "help", "abbreviate_commands"] { prog }
      { prog, aliases, help, abbreviateCommands := commands } :=
    hhelp.field (gives_switchEntry "abbreviate_commands" commands) rfl (fun _ _ => rfl) rfl
      (by decide)
  have habbreviations : shape.Adds _
      ["aliases", "help", "abbreviate_commands", "abbreviate_options"] { prog }
      { prog, aliases, help, abbreviateCommands := commands, abbreviateOptions := abbreviations } :=
    hcommands.field (gives_switchEntry "abbreviate_options" abbreviations) rfl (fun _ _ => rfl) rfl
      (by decide)
  have hinherited : shape.Adds _
      ["aliases", "help", "abbreviate_commands", "abbreviate_options", "inherit_options"] { prog }
      ⟨prog, aliases, help, commands, abbreviations, inherited, none, [], []⟩ :=
    habbreviations.field (gives_switchEntry "inherit_options" inherited) rfl (fun _ _ => rfl) rfl
      (by decide)
  have hslot : shape.Adds _
      ["aliases", "help", "abbreviate_commands", "abbreviate_options", "inherit_options",
        "subcommands"] { prog }
      ⟨prog, aliases, help, commands, abbreviations, inherited, slot, [], []⟩ :=
    hinherited.field (gives_subcommands slot) rfl (fun _ _ => rfl) rfl (by decide)
  have hoptions : shape.Adds _
      ["aliases", "help", "abbreviate_commands", "abbreviate_options", "inherit_options",
        "subcommands", "options"] { prog }
      ⟨prog, aliases, help, commands, abbreviations, inherited, slot, options, []⟩ :=
    hslot.field (gives_listEntry "options" _ fun option hoption =>
      option.read_toJson (hkept.options option hoption)) rfl (fun _ _ => rfl) rfl (by decide)
  have hpositionals : shape.Adds _
      ["aliases", "help", "abbreviate_commands", "abbreviate_options", "inherit_options",
        "subcommands", "options", "positionals"] { prog }
      ⟨prog, aliases, help, commands, abbreviations, inherited, slot, options, positionals⟩ :=
    hoptions.field (gives_listEntry "positionals" _ fun positional hpositional =>
      positional.read_toJson (hkept.positionals positional hpositional)) rfl (fun _ _ => rfl) rfl
      (by decide)
  have hobject := Adds.read_object _ hprog hpositionals (by decide) (by decide)
  simpa only [toJson, List.cons_append, List.nil_append] using hobject

end ShellCompletion
