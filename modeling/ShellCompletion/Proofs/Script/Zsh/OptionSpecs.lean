import ShellCompletion.Proofs.Scope.Declarations
import ShellCompletion.Proofs.Script.Reached
import ShellCompletion.Proofs.Script.Zsh
import ShellCompletion.Proofs.Script.Zsh.Fields
import ShellCompletion.Proofs.Specification
import ShellCompletion.Proofs.Text.Lines

/-!
# Fields of option specifications

The specification of an option with a value has the fields that it is meant to have: the name of
the value and the action. The name is escaped, the action is not. So the fields are these exactly
if no text of the user in the action has a colon that is special.
-/

namespace ShellCompletion

/-- The texts of the user that are in the action itself. All other texts are in helper
functions. -/
def Completion.actionTexts : Completion → List String
  | choices (.plain values) => values
  | file (some path) | directory (some path) => [path]
  | exec line => [line]
  | _ => []

namespace Zsh

variable {program : String} {scope : Scope} {option : CommandOption} {state : EmitState}

/-! ## Colons in actions -/

/-- Between single quotes a text keeps its special colons. -/
theorem hasBareColon_flatMap_posixChar (slashed : Bool) (chars : List Char) :
    hasBareColon slashed (chars.flatMap Text.posixChar) = hasBareColon slashed chars := by
  induction chars generalizing slashed with
  | nil => rfl
  | cons c rest ih =>
    rw [List.flatMap_cons]
    by_cases hc : c = '\''
    · subst hc
      cases slashed <;> simp [Text.posixChar, hasBareColon, ih]
    · cases slashed <;> simp [Text.posixChar, hasBareColon, ih, hc]

/-- A word in shell code has special colons if the word has. -/
theorem hasBareColon_escape (word : String) (rest : List Char) :
    hasBareColon false ((Text.escape word).toList ++ rest) =
      (hasBareColon false word.toList || hasBareColon false rest) := by
  have hchars : (Text.escape word).toList = _ := ShellWords.toList_quote .posix word
  have hends : endsSlashed false (Text.escape word).toList = false := by
    rw [hchars]
    split
    · rename_i hsafe
      refine endsSlashed_of_notMem fun hmem => ?_
      exact ShellWords.isOrdinary_of_isSafeChar
        ((ShellWords.isSafeWord_iff.mp hsafe).2 _ hmem) (by simp)
    · rw [ShellWords.quotedChars, ← List.cons_append]
      exact endsSlashed_concat (by decide) _
  rw [hasBareColon_append, hends, hchars]
  congr 1
  split
  · rfl
  · rw [ShellWords.quotedChars, ← List.cons_append, hasBareColon_append]
    change (hasBareColon false (word.toList.flatMap Text.posixChar) || _) = _
    rw [hasBareColon_flatMap_posixChar]
    cases endsSlashed false _ <;> simp [hasBareColon]

/-- A list of words in shell code has special colons if one of the words has. -/
theorem hasBareColon_escapeAll (words : List String) (rest : List Char) :
    hasBareColon false ((Text.escapeAll words).toList ++ rest) =
      (words.any (hasBareColon false ·.toList) || hasBareColon false rest) := by
  have hchars : (Text.escapeAll words).toList = _ := ShellWords.toList_quoteAll .posix words
  rw [hchars]
  clear hchars
  induction words with
  | nil => rfl
  | cons word words ih =>
    cases words with
    | nil =>
      rw [List.map_singleton, List.intercalate_singleton, List.any_cons, List.any_nil,
        Bool.or_false]
      exact hasBareColon_escape word rest
    | cons next words =>
      rw [List.map_cons, List.map_cons, List.intercalate_cons_cons, List.append_assoc,
        List.append_assoc, List.any_cons, Bool.or_assoc, ← ih]
      exact hasBareColon_escape word _

/-- Words in shell code between texts without special characters. -/
theorem hasBareColon_surrounded {before after : String} (words : List String)
    (hbefore : ':' ∉ before.toList ∧ '\\' ∉ before.toList) (hafter : ':' ∉ after.toList) :
    hasBareColon false (before ++ Text.escapeAll words ++ after).toList =
      words.any (hasBareColon false ·.toList) := by
  rw [String.toList_append, String.toList_append, List.append_assoc, hasBareColon_append,
    hasBareColon_of_notMem hbefore.1, endsSlashed_of_notMem hbefore.2, Bool.false_or,
    hasBareColon_escapeAll, hasBareColon_of_notMem hafter, Bool.or_false]

/-- A single word in shell code between texts without special characters. -/
theorem hasBareColon_around {before after : String} (word : String)
    (hbefore : ':' ∉ before.toList ∧ '\\' ∉ before.toList) (hafter : ':' ∉ after.toList) :
    hasBareColon false (before ++ Text.escape word ++ after).toList =
      [word].any (hasBareColon false ·.toList) := by
  have hword : Text.escapeAll [word] = Text.escape word :=
    ShellWords.quoteAll_singleton .posix word
  rw [← hword]
  exact hasBareColon_surrounded [word] hbefore hafter

/-- A word in shell code behind a text without special characters. -/
theorem hasBareColon_behind {before : String} (word : String)
    (hbefore : ':' ∉ before.toList ∧ '\\' ∉ before.toList) :
    hasBareColon false (before ++ Text.escape word).toList =
      [word].any (hasBareColon false ·.toList) := by
  have haround := @hasBareColon_around before "" word hbefore (by decide)
  rwa [String.append_empty] at haround

/-- Integers have no colons. -/
theorem notMem_repr (number : Int) : ':' ∉ number.repr.toList := by
  have hdigits (number : Nat) : ':' ∉ (toString number).toList := fun hmem =>
    absurd (Text.isDigit_of_mem_toString hmem) (by decide)
  cases number with
  | ofNat number => exact hdigits number
  | negSucc number =>
    have hminus : (Int.negSucc number).repr = "-" ++ toString (number + 1) := rfl
    rw [hminus, String.toList_append, List.mem_append, not_or]
    exact ⟨by decide, hdigits _⟩

/-- Names have no special characters. -/
theorem notMem_of_isNameChar {name : String} (hname : ∀ c ∈ name.toList, Text.isNameChar c = true) :
    ':' ∉ name.toList ∧ '\\' ∉ name.toList :=
  ⟨fun hmem => absurd (hname _ hmem) (by decide), fun hmem => absurd (hname _ hmem) (by decide)⟩

/-! ## Actions -/

/-- The helper functions that scripts for zsh know in advance have names. -/
theorem areNames_helpers (program : String) : (helpers program).AreNames where
  start c hc := by
    have hstart : (helpers program).start = "_" ++ Text.identifier program := rfl
    rw [hstart, String.toList_append, List.mem_append] at hc
    rcases hc with hc | hc
    · rw [List.mem_singleton.mp hc]
      rfl
    · exact Text.isNameChar_of_mem_identifier hc
  keys := by
    have hkeys : ["helper", "exec"].all (·.toList.all Text.isNameChar) = true := by decide
    rw [keys_available]
    exact fun key hkey => List.all_eq_true.mp (List.all_eq_true.mp hkeys key hkey)
  names name hname := by cases hname

/-- What an action is made of: it succeeds, and special colons are those in the texts of the
user. -/
def Offers (program : String) (step : Emit String) (texts : List String) : Prop :=
  ∀ state, Emit.Reached (helpers program) state → ∃ act after, step state = .ok act after ∧
    Emit.Reached (helpers program) after ∧
    hasBareColon false act.toList = texts.any (hasBareColon false ·.toList)

/-- An action that is made up has no special colons but those of its texts. -/
theorem offers_pure {act : String} {texts : List String}
    (hact : hasBareColon false act.toList = texts.any (hasBareColon false ·.toList)) :
    Offers program (pure act) texts :=
  fun state hstate => ⟨act, state, rfl, hstate, hact⟩

/-- A helper function that is made up has a name without colons. -/
theorem offers_generated (hint body : String) : Offers program (Emit.generated hint body) [] := by
  intro state hstate
  rcases hgenerate : state.helpers.generate hint body with ⟨name, after⟩
  have hrun := Emit.generated_eq_ok hgenerate
  obtain ⟨hnames, hname⟩ := (hstate.areNames (areNames_helpers program)).generate hgenerate
  exact ⟨name, _, hrun, hstate.generated hrun,
    hasBareColon_of_notMem (notMem_of_isNameChar (hnames.names name hname)).1⟩

/-- The output of a command is described by a helper function that is known in advance. -/
theorem offers_exec (label line : String) : Offers program (action label (.exec line)) [line] := by
  intro state hstate
  have havailable : state.helpers.available = (helpers program).available :=
    congrArg (·.available) hstate.unused_eq
  obtain ⟨name, hname⟩ := @Helpers.exists_use state.helpers "exec"
    (by rw [havailable, keys_available]; simp)
  obtain ⟨after, huse⟩ : ∃ after, state.helpers.use "exec" = (some name, after) :=
    ⟨_, Prod.ext hname rfl⟩
  have hrun := Emit.helper_eq_ok .zsh huse
  obtain ⟨hnames, hmem⟩ := (hstate.areNames (areNames_helpers program)).use huse
  refine ⟨_, _, bind_apply_eq_ok.mpr ⟨_, _, hrun, rfl⟩, hstate.helper hrun, ?_⟩
  refine hasBareColon_around line ?_ (by decide)
  simp [notMem_of_isNameChar (hnames.names name hmem)]

/-- The special colons of an action are those in the texts of the user. -/
theorem offers_action (label : String) (completion : Completion) :
    Offers program (action label completion) completion.actionTexts := by
  cases completion with
  | choices options =>
    cases options with
    | plain values =>
      exact offers_pure (hasBareColon_surrounded values (by decide) (by decide))
    | described items => exact offers_generated _ _
  | file path =>
    cases path with
    | none => exact offers_pure (by decide)
    | some path => exact offers_pure (hasBareColon_behind path (by decide))
  | directory path =>
    cases path with
    | none => exact offers_pure (by decide)
    | some path => exact offers_pure (hasBareColon_behind path (by decide))
  | exec line => exact offers_exec label line
  | valueList _ _ => exact offers_generated _ _
  | signal _ => exact offers_generated _ _
  | service =>
    intro state hstate
    have hrun : Emit.warn .noServiceNames state =
      .ok () { state with warnings := state.warnings ++ [.noServiceNames] } := rfl
    exact ⟨" ", _, bind_apply_eq_ok.mpr ⟨_, _, hrun, rfl⟩, hstate.warn hrun, by decide⟩
  | range start stop step =>
    refine offers_pure (hasBareColon_of_notMem ?_)
    have hblank : ':' ∉ (toString " ").toList := by decide
    simp [notMem_repr, hblank]
  | none | command | hostname | process | pid | user | group | shellVariable =>
    exact offers_pure (by decide)

/-! ## States -/

/-- What offers something ends in a state in which writing a script can be. -/
theorem Offers.keeps {step : Emit String} {texts : List String}
    (hoffers : Offers program step texts) : Emit.Keeps (helpers program) step := by
  intro state value after hstate hrun
  obtain ⟨act, reached, hact, hreached, -⟩ := hoffers state hstate
  rw [hact] at hrun
  cases hrun
  exact hreached

/-- So does the specification of an option. -/
theorem keeps_optionSpec (declared : Declaration) (hidden : Bool) :
    Emit.Keeps (helpers program) (optionSpec scope declared hidden) := by
  have hfields : Emit.Keeps (helpers program) (optionFields declared.option hidden) := by
    rw [optionFields]
    split
    · dsimp only
      split
      · exact .pure _
      · exact (offers_action _ _).keeps.bind fun _ => .pure _
    · exact .pure _
  exact hfields.bind fun _ => .pure _

/-- So do all specifications of a function. -/
theorem keeps_specs (helper : String) : Emit.Keeps (helpers program) (specs scope helper) := by
  have hvisible (declared : Declaration) :
      Emit.Keeps (helpers program) (visibleSpec scope helper declared) :=
    (keeps_optionSpec declared false).bind fun _ => (Emit.Keeps.ofExcept _).bind fun _ => .pure _
  have hpositional (numbered : Nat × Positional) :
      Emit.Keeps (helpers program) (positionalSpec scope helper numbered) :=
    (offers_action _ _).keeps.bind fun _ => (Emit.Keeps.ofExcept _).bind fun _ => .pure _
  have hslot (slot : SubcommandSlot) : Emit.Keeps (helpers program) (slotSpec scope slot) :=
    (offers_generated _ _).keeps.bind fun _ => .pure _
  exact (Emit.Keeps.mapM hvisible _).bind fun _ =>
    (Emit.Keeps.mapM (keeps_optionSpec · true) _).bind fun _ =>
      (Emit.Keeps.mapM hpositional _).bind fun _ => (Emit.Keeps.mapM hslot _).bind fun _ => .pure _

/-- So does a function. -/
theorem keeps_render (function : CommandFunction) :
    Emit.Keeps (helpers program) (render function) := by
  rw [render]
  split
  · exact .pure _
  · exact Emit.Keeps.bind (fun _ _ _ hstate hrun => hstate.helper hrun) fun helper =>
      (keeps_specs helper).bind fun _ => .pure _

/-- When all functions of a script are written, its last state is reached. -/
theorem reached_functions {tree : CommandTree} {config : Config} {warnings after : List Warning}
    {texts : List String}
    (hrun : (writer tree config).functions tree config warnings = .ok (texts, state) after) :
    Emit.Reached (helpers tree.programName) state :=
  (Emit.Keeps.mapM keeps_render _).reached_of_run hrun

/-! ## Option strings -/

/-- The option strings with what follows them. -/
def forms (option : CommandOption) : List String :=
  option.strings.map fun string => string ++ formSuffix (OptionKind.of string) option.arity

/-- Several texts in braces, or a single one. -/
def joinForms : List String → String
  | [form] => form
  | forms => "\x7b" ++ ",".intercalate forms ++ "\x7d"

/-- The option strings of a specification are quoted one by one. -/
theorem optionForms_eq (option : CommandOption) :
    optionForms option = joinForms ((forms option).map Text.escape) := by
  rw [optionForms, forms, List.map_map]
  rcases option.strings with _ | ⟨first, _ | ⟨second, rest⟩⟩ <;> rfl

/-- Texts that are read as words are read as these words in braces, too. -/
theorem spells_braces {texts words : List (List Char)}
    (hspells : List.Forall₂ (fun text word => ∃ bare, ShellWords.Spells .posix text word bare)
      texts words) : ∃ bare, ShellWords.Spells .posix
        (['\x7b'] ++ ([','].intercalate texts ++ ['\x7d']))
        (['\x7b'] ++ ([','].intercalate words ++ ['\x7d'])) bare := by
  have hbehind : ∃ bare, ShellWords.Spells .posix ([','].intercalate texts ++ ['\x7d'])
      ([','].intercalate words ++ ['\x7d']) bare := by
    induction hspells with
    | nil => exact ⟨_, ShellWords.spells_ordinary (by decide)⟩
    | cons hfirst hrest ih =>
      obtain ⟨bare, hfirst⟩ := hfirst
      obtain ⟨more, hmore⟩ := ih
      cases hrest with
      | nil =>
        rw [List.intercalate_singleton, List.intercalate_singleton]
        exact ⟨_, hfirst.append (ShellWords.spells_ordinary (by decide))⟩
      | cons =>
        rw [List.intercalate_cons_cons, List.intercalate_cons_cons, List.append_assoc,
          List.append_assoc, List.append_assoc, List.append_assoc]
        exact ⟨_, hfirst.append ((ShellWords.spells_ordinary (by decide)).append hmore)⟩
  obtain ⟨bare, hbehind⟩ := hbehind
  exact ⟨_, (ShellWords.spells_ordinary (by decide)).append hbehind⟩

/-- A word is read back from its form in shell code. -/
theorem spells_escape (word : String) :
    ∃ bare, ShellWords.Spells .posix (Text.escape word).toList word.toList bare := by
  obtain ⟨bare, hspells, -⟩ := ShellWords.spellsSafely_quote .posix word
  exact ⟨bare, hspells⟩

/-- The option strings are read as they are. -/
theorem spells_optionForms (option : CommandOption) : ∃ bare, ShellWords.Spells .posix
    (optionForms option).toList (joinForms (forms option)).toList bare := by
  have hmany (forms : List String) : ∃ bare, ShellWords.Spells .posix
      ("\x7b" ++ ",".intercalate (forms.map Text.escape) ++ "\x7d").toList
      ("\x7b" ++ ",".intercalate forms ++ "\x7d").toList bare := by
    have hforms : List.Forall₂ (fun text word => ∃ bare, ShellWords.Spells .posix text word bare)
        ((forms.map Text.escape).map String.toList) (forms.map String.toList) := by
      rw [List.map_map]
      exact List.forall₂_map_left_iff.mpr (List.forall₂_map_right_iff.mpr
        (List.forall₂_same.mpr fun form _ => spells_escape form))
    obtain ⟨bare, hbraces⟩ := spells_braces hforms
    refine ⟨bare, ?_⟩
    rw [String.toList_append, String.toList_append, String.toList_append, String.toList_append,
      String.toList_intercalate, String.toList_intercalate, List.append_assoc, List.append_assoc]
    exact hbraces
  rw [optionForms_eq]
  rcases forms option with _ | ⟨first, _ | ⟨second, rest⟩⟩
  · exact hmany []
  · exact spells_escape first
  · exact hmany (first :: second :: rest)

/-- If texts have a property at all characters, and commas and braces have it, so have the texts
in braces. -/
theorem forall_mem_joinForms {property : Char → Prop} {forms : List String}
    (hmarks : ∀ c ∈ ['\x7b', ',', '\x7d'], property c)
    (hforms : ∀ form ∈ forms, ∀ c ∈ form.toList, property c) :
    ∀ c ∈ (joinForms forms).toList, property c := by
  simp only [List.forall_mem_cons] at hmarks
  obtain ⟨hopen, hcomma, hclose, -⟩ := hmarks
  have hmany : ∀ c ∈ ("\x7b" ++ ",".intercalate forms ++ "\x7d").toList, property c := by
    rw [String.toList_append, String.toList_append, String.toList_intercalate]
    refine List.forall_mem_append.mpr ⟨List.forall_mem_append.mpr
      ⟨List.forall_mem_singleton.mpr hopen, ?_⟩, List.forall_mem_singleton.mpr hclose⟩
    cases forms with
    | nil => exact fun c hc => by cases hc
    | cons first rest =>
      obtain ⟨hfirst, hrest⟩ := List.forall_mem_cons.mp hforms
      rw [List.map_cons, Text.intercalate_cons_flatMap, List.forall_mem_append]
      refine ⟨hfirst, fun c hc => ?_⟩
      obtain ⟨chars, hchars, hc⟩ := List.mem_flatMap.mp hc
      obtain ⟨form, hform, rfl⟩ := List.mem_map.mp hchars
      rcases List.mem_append.mp hc with hc | hc
      · rwa [List.mem_singleton.mp hc]
      · exact hrest form hform c hc
  rcases forms with _ | ⟨first, _ | ⟨second, rest⟩⟩
  · exact hmany
  · exact hforms first List.mem_cons_self
  · exact hmany

/-- If the option strings have no special characters, there are none before the fields. -/
theorem isFieldMark_of_mem_forms
    (hstrings : ∀ string ∈ option.strings, ∀ c ∈ string.toList, isFieldMark c = false) :
    ∀ c ∈ (joinForms (forms option)).toList, isFieldMark c = false := by
  have hsuffix (kind : OptionKind) (arity : Arity) :
      ∀ c ∈ (formSuffix kind arity).toList, isFieldMark c = false := by
    have hall : (formSuffix kind arity).toList.all (!isFieldMark ·) = true := by
      cases kind <;> cases arity <;> decide
    simpa using hall
  refine forall_mem_joinForms (by simp [isFieldMark]) fun form hform => ?_
  obtain ⟨string, hstring, rfl⟩ := List.mem_map.mp hform
  rw [String.toList_append]
  exact List.forall_mem_append.mpr ⟨hstrings string hstring, hsuffix _ _⟩

/-! ## Specifications -/

/-- The description of an option in brackets, if it has one. -/
def helpField (option : CommandOption) : String :=
  if option.help.isEmpty then "" else "[" ++ escapeField option.help ++ "]"

/-- The fields of a visible option with a value. -/
def valueFields (option : CommandOption) (act : String) : String :=
  helpField option ++ (if option.arity == .optional then "::" else ":") ++
    escapeField option.displayMetavar ++ ":" ++ act

/-- The fields of an option with a value need its action only. -/
theorem optionFields_eq_ok {after : EmitState} {act : String} (htakes : option.takesValue = true)
    (hact : action option.displayMetavar option.completion state = .ok act after) :
    optionFields option false state = .ok (valueFields option act) after := by
  rw [optionFields, if_pos htakes]
  refine bind_apply_eq_ok.mpr ⟨act, after, hact, ?_⟩
  simp only [valueFields, helpField, Bool.or_false]
  rfl

/-- A description in brackets is dropped, whatever it says. -/
theorem dropHelp_helpField (option : CommandOption) (rest : List Char) :
    dropHelp (dropTo [':', '['] false ((helpField option).toList ++ ':' :: rest)) =
      ':' :: rest := by
  rw [helpField]
  split
  · simp [dropTo, dropHelp]
  · rw [String.toList_append, String.toList_append, toList_escapeField]
    simp [dropTo, dropHelp, dropTo_escaped]

/-- Behind the option strings there are the field for an optional value, the name of the value
and those of the action. -/
theorem fieldsOf_eq (act : String)
    (hstrings : ∀ string ∈ option.strings, ∀ c ∈ string.toList, isFieldMark c = false) :
    fieldsOf (joinForms (forms option) ++ valueFields option act) =
      (if option.arity = .optional then [""] else []) ++ escapeField option.displayMetavar ::
        (splitFields false act.toList).map String.ofList := by
  have hforms : ∀ c ∈ (joinForms (forms option)).toList, c ∉ [':', '['] ∧ c ≠ '\\' := by
    intro c hc
    have hmark := isFieldMark_of_mem_forms hstrings c hc
    simp only [isFieldMark, Bool.or_eq_false_iff, beq_eq_false_iff_ne] at hmark
    simp [hmark]
  have hchars : (valueFields option act).toList = (helpField option).toList ++
      ':' :: ((if option.arity = .optional then [':'] else []) ++
        ((escapeField option.displayMetavar).toList ++ ':' :: act.toList)) := by
    by_cases hoptional : option.arity = .optional <;> simp [valueFields, hoptional]
  have hfields := splitFields_escaped option.displayMetavar.toList act.toList
  rw [← toList_escapeField] at hfields
  rw [fieldsOf, String.toList_append, dropTo_append hforms, hchars, dropHelp_helpField]
  by_cases hoptional : option.arity = .optional <;> simp [hoptional, splitFields, hfields]

/-- A part of a specification is read as it is, before another part. -/
theorem spells_quotePart (part : String) {text word bare : List Char}
    (hspells : ShellWords.Spells .posix text word bare) : ∃ more,
      ShellWords.Spells .posix ((quotePart part).toList ++ text) (part.toList ++ word) more := by
  rw [quotePart]
  split
  · rename_i hempty
    rw [String.isEmpty_iff.mp hempty]
    exact ⟨bare, hspells⟩
  · obtain ⟨more, hpart⟩ := spells_escape part
    exact ⟨_, hpart.append hspells⟩

/-- The parts of a specification are read as one word. -/
theorem words?_parts (head act : String) (option : CommandOption) :
    ShellWords.words? .posix (quotePart head ++ optionForms option ++
        quotePart (valueFields option act)) =
      some [head ++ (joinForms (forms option) ++ valueFields option act)] := by
  have hne : (valueFields option act).isEmpty = false := by
    simp [valueFields, String.isEmpty_eq_false_iff]
  have hquoted : quotePart (valueFields option act) = Text.escape (valueFields option act) := by
    simp [quotePart, hne]
  obtain ⟨bare, hforms⟩ := spells_optionForms option
  obtain ⟨more, hfields⟩ := spells_escape (valueFields option act)
  obtain ⟨all, hspells⟩ := spells_quotePart head (hforms.append hfields)
  rw [← String.toList_append, ← String.toList_append, ← String.toList_append,
    ← String.toList_append, ← String.append_assoc, ← hquoted] at hspells
  rw [hspells.words?_eq, String.ofList_toList]

/-- A specification with a value has the fields that it is meant to have exactly if no text of
the user in its action has a special colon: besides an empty one for an optional value, the
escaped name of the value and the whole action. This holds in every state in which writing a
script for zsh can be, and writing the specification never fails there. -/
theorem fieldsOf_optionSpec_iff (hstate : Emit.Reached (helpers program) state) (scope : Scope)
    (declared : Declaration) (htakes : declared.option.takesValue = true)
    (hstrings : ∀ string ∈ declared.option.strings, ∀ c ∈ string.toList,
      c ∉ ['\\', ':', '[', ']']) :
    ∃ spec act after body,
      optionSpec scope declared false state = .ok spec after ∧
      action declared.option.displayMetavar declared.option.completion state = .ok act after ∧
      Emit.Reached (helpers program) after ∧
      ShellWords.words? .posix spec = some [optionHead scope declared false ++ body] ∧
      ((∃ message, fieldsOf body =
          (if declared.option.arity = .optional then [""] else []) ++ [message, act] ∧
          unescapeField message = declared.option.displayMetavar) ↔
        ∀ text ∈ declared.option.completion.actionTexts,
          hasBareColon false text.toList = false) := by
  obtain ⟨act, after, hact, hafter, hcolons⟩ :=
    offers_action declared.option.displayMetavar declared.option.completion state hstate
  have hstrings : ∀ string ∈ declared.option.strings, ∀ c ∈ string.toList,
      isFieldMark c = false := by
    intro string hstring c hc
    have hplain := hstrings string hstring c hc
    simp only [List.mem_cons, List.not_mem_nil, or_false, not_or] at hplain
    simp [isFieldMark, hplain]
  refine ⟨_, act, after, _, bind_apply_eq_ok.mpr ⟨_, _, optionFields_eq_ok htakes hact, rfl⟩, hact,
    hafter, words?_parts _ act declared.option, ?_⟩
  have hwhole : (splitFields false act.toList).map String.ofList = [act] ↔
      ∀ text ∈ declared.option.completion.actionTexts, hasBareColon false text.toList = false := by
    have hone : [act] = [act.toList].map String.ofList := by simp
    have hinjective : Function.Injective String.ofList := fun _ _ => String.ofList_inj.mp
    rw [hone, (List.map_injective_iff.mpr hinjective).eq_iff, splitFields_eq_singleton_iff,
      hcolons, List.any_eq_false]
    simp
  rw [fieldsOf_eq act hstrings, ← hwhole]
  constructor
  · rintro ⟨message, hfields, -⟩
    exact (List.cons_eq_cons.mp (List.append_cancel_left hfields)).2
  · intro hact
    exact ⟨_, by rw [hact], unescapeField_escapeField _⟩

/-- An option with an optional value whose name and description have special characters. -/
def labelledOption : CommandOption :=
  { CommandOption.ofStrings ["--color"] (by decide) with
    arity := .optional, metavar := some "WHEN: now", help := "Use [ansi]",
    completion := .choices (.plain ["auto", "at\\:once"]) }

/-- The special characters of the name and the description are escaped, those of the values are
kept from being special by the user. -/
theorem fieldsOf_optionSpec_iff_labelled :
    let declared : Declaration := ⟨0, 0, labelledOption⟩
    let scope := (CommandTree.withHeir [labelledOption] []).scope {} 0
    let state : EmitState := { helpers := helpers "prog" }
    Emit.Reached (helpers "prog") state ∧ declared.option.takesValue = true ∧
    (∀ string ∈ declared.option.strings, ∀ c ∈ string.toList, c ∉ ['\\', ':', '[', ']']) ∧
    ∃ spec act after body,
      optionSpec scope declared false state = .ok spec after ∧
      action "WHEN: now" declared.option.completion state = .ok act after ∧
      ShellWords.words? .posix spec = some [optionHead scope declared false ++ body] ∧
      ∃ message, fieldsOf body = ["", message, act] ∧ unescapeField message = "WHEN: now" := by
  intro declared scope state
  have hstate : Emit.Reached (helpers "prog") state := .start []
  have hstrings : ∀ string ∈ declared.option.strings, ∀ c ∈ string.toList,
      c ∉ ['\\', ':', '[', ']'] := by
    have hall : "--color".toList.all (· ∉ ['\\', ':', '[', ']']) = true := by decide
    exact List.forall_mem_singleton.mpr fun c hc => by simpa using List.all_eq_true.mp hall c hc
  obtain ⟨spec, act, after, body, hspec, hact, -, hread, hfields⟩ :=
    fieldsOf_optionSpec_iff hstate scope declared rfl hstrings
  exact ⟨hstate, rfl, hstrings, spec, act, after, body, hspec, hact, hread,
    hfields.mpr (by decide)⟩

/-- The document of a program with a colon in a value. -/
def colonDocument : CommandDocument where
  prog := "prog"
  options := [{
    optionStrings := ["--color"]
    complete := some [.text "choices", .list [.text "a:b", .text "c"]] }]

/-- The option of the document. -/
def colonOption : CommandOption :=
  { CommandOption.ofStrings ["--color"] (by decide) with
    arity := .required, completion := .choices (.plain ["a:b", "c"]) }

/-- The tree that is read from the document. -/
def withColon : CommandTree :=
  ⟨#[{ command := { name := "prog", options := [colonOption] } }]⟩

/-- The tree is read from the document. -/
theorem ofDocuments_colonDocument : CommandTree.ofDocuments [colonDocument] = .ok withColon := by
  rw [CommandTree.ofDocuments, List.mergeSort_singleton]
  simp only [CommandDocument.applyTo, CommandDocument.orderedPositionals,
    List.foldlM_cons, List.foldlM_nil, colonDocument, List.mergeSort_nil]
  rfl

/-- A colon in a value ends the action. -/
theorem fieldsOf_optionSpec_ne_of_colon : ∃ tree,
    CommandTree.ofDocuments [colonDocument] = .ok tree ∧ tree.Accepted ∧
      let scope := tree.scope {} 0
      let state : EmitState := { helpers := helpers tree.programName }
      ∃ declared ∈ scope.visibleOptions, declared.option.takesValue = true ∧
        declared.option.strings = ["--color"] ∧
        action declared.option.displayMetavar declared.option.completion state =
          .ok "(a:b c)" state ∧
        ∃ spec body, optionSpec scope declared false state = .ok spec state ∧
          ShellWords.words? .posix spec = some [optionHead scope declared false ++ body] ∧
          fieldsOf body = ["COLOR", "(a", "b c)"] := by
  have hbuilt : withColon.Built :=
    (CommandTree.Built.new "prog").addOptions Nat.one_pos (List.pairwise_singleton _ colonOption)
  have hfields (state : EmitState) :
      optionFields colonOption false state = .ok ":COLOR:(a:b c)" state := rfl
  refine ⟨withColon, ofDocuments_colonDocument, ⟨hbuilt, rfl⟩, ⟨0, 0, colonOption⟩,
    by decide +kernel, rfl, rfl, rfl, "'(--color)'--color=':COLOR:(a:b c)'",
    "--color=:COLOR:(a:b c)", ?_, ?_, ?_⟩
  · exact bind_apply_eq_ok.mpr ⟨_, _, hfields _,
      congrArg (EStateM.Result.ok · _) (by decide +kernel)⟩
  · decide +kernel
  · decide +kernel

end Zsh
end ShellCompletion
