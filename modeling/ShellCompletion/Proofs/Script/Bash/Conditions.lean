import ShellCompletion.Document.Import
import ShellCompletion.Proofs.CommandLine.Stacks
import ShellCompletion.Proofs.Scope.Conflicts
import ShellCompletion.Proofs.Script.Bash.ReadingLoop
import ShellCompletion.Script.Bash.Query

/-!
# Conditions in bash functions

A bash function knows of every option only in which word it was found last, and one value.
So it can take a wrong one of several options that are stacked in one word, and take the
absence of a value for an empty one.
-/

namespace ShellCompletion

/-! ## Tests on scoped options -/

namespace Bash

variable {scope : Scope} {options owners before after : List ScopedOption}
  {option other : ScopedOption} {state : LoopState} {string : String}
  {strings words values : List String}

/-- Dropping options that were there before does not change the first one that passes a
test. -/
theorem find?_ownersOf (test : ScopedOption → Bool) (strings : List String) :
    (ownersOf (scopedOptions scope) strings).find? test =
      (strings.filterMap (ownerOf? (scopedOptions scope))).find? test := by
  have hknown : ∀ option ∈ strings.filterMap (ownerOf? (scopedOptions scope)),
      option ∈ scopedOptions scope := by
    intro option hoption
    obtain ⟨string, -, howner⟩ := List.mem_filterMap.mp hoption
    exact (ownerOf?_eq_some_iff.mp howner).1
  let alike (kept owner : ScopedOption) : Bool := kept.declared.sameAddress owner.declared
  refine OptionTable.find?_foldl_of_alike alike fun first hfirst later hlater haddress htest => ?_
  obtain rfl := eq_of_sameAddress (hknown first (by simpa using hfirst)) (hknown later hlater)
    haddress
  exact htest

/-- The options that have one of the strings. -/
theorem mem_ownersOf : option ∈ ownersOf (scopedOptions scope) strings ↔
    option ∈ scopedOptions scope ∧ ∃ string ∈ strings, string ∈ option.strings := by
  classical
  have hfound : ((ownersOf (scopedOptions scope) strings).find? _).isSome = _ :=
    congrArg Option.isSome (find?_ownersOf (fun other => decide (other = option)) strings)
  have hmem : ∀ {list : List ScopedOption},
      (list.find? fun other => decide (other = option)).isSome = true ↔ option ∈ list := by
    simp
  rw [← hmem, hfound, hmem, List.mem_filterMap]
  simp only [ownerOf?_eq_some_iff]
  constructor
  · rintro ⟨string, hstring, hoption, howner⟩
    exact ⟨hoption, string, hstring, (mem_strings_iff hoption).mpr howner⟩
  · rintro ⟨hoption, string, hstring, hmem⟩
    exact ⟨string, hstring, hoption, (mem_strings_iff hoption).mp hmem⟩

/-! ## The option with the greatest position -/

namespace LoopState

/-- The value that a test compares. -/
def tested (state : LoopState) (option : ScopedOption) : String :=
  if option.arity.takesValue then state.value option.name else ""

/-- The better one of two positions with values; of two equal positions the first counts. -/
def better (state : LoopState) (best : Nat × String) (option : ScopedOption) : Nat × String :=
  if best.1 < state.position option.name then (state.position option.name, state.tested option)
  else best

/-- Options whose positions are not greater do not count. -/
theorem foldl_better_of_le {best : Nat × String}
    (hle : ∀ option ∈ owners, state.position option.name ≤ best.1) :
    owners.foldl state.better best = best := by
  induction owners with
  | nil => rfl
  | cons option rest ih =>
    obtain ⟨hoption, hrest⟩ := List.forall_mem_cons.mp hle
    rw [List.foldl_cons, better, if_neg (Nat.not_lt.mpr hoption), ih hrest]

/-- A position that is greater than all others is still greater than the best of them. -/
theorem foldl_better_lt {best : Nat × String} {position : Nat} (hbest : best.1 < position)
    (hlt : ∀ option ∈ owners, state.position option.name < position) :
    (owners.foldl state.better best).1 < position := by
  induction owners generalizing best with
  | nil => exact hbest
  | cons option rest ih =>
    obtain ⟨hoption, hrest⟩ := List.forall_mem_cons.mp hlt
    refine ih ?_ hrest
    rw [better]
    split
    · exact hoption
    · exact hbest

/-- The first option with the greatest position counts. -/
theorem latest_eq_of_find? {position : Nat} (hposition : 0 < position)
    (hle : ∀ option ∈ owners, state.position option.name ≤ position)
    (hfirst : owners.find? (state.position ·.name == position) = some option) :
    state.latest owners = (position, state.tested option) := by
  obtain ⟨hoption, before, after, rfl, hbefore⟩ := List.find?_eq_some_iff_append.mp hfirst
  obtain rfl : state.position option.name = position := by simpa using hoption
  have hlt : (before.foldl state.better (0, "")).1 < state.position option.name := by
    refine foldl_better_lt hposition fun other hother => ?_
    have hne := hbefore other hother
    exact Nat.lt_of_le_of_ne (hle other (by simp [hother])) (by simpa using hne)
  change (before ++ option :: after).foldl state.better (0, "") = _
  rw [List.foldl_append, List.foldl_cons, better, if_pos hlt]
  exact foldl_better_of_le fun other hother => hle other (by simp [hother])

end LoopState

end Bash

/-! ## When a test is misread -/

namespace Scope

variable {scope : Scope} {strings words values : List String} {string : String}
  {last : Occurrence × Nat}

/-- Strings that belong to options, together with all other strings of these options. -/
def Closed (scope : Scope) (strings : List String) : Prop :=
  ∀ string ∈ strings, ∃ declared, scope.owner? string = some declared ∧
    ∀ other, scope.owner? other = some declared → other ∈ strings

/-- Of the strings whose options are in the word of the last occurrence, the first belongs
to another option than that occurrence. -/
def Overlooked (scope : Scope) (words strings : List String) (last : Occurrence × Nat) : Prop :=
  ∃ first ∈ strings.find? (fun string =>
      decide (∃ found ∈ scope.optionTable.placedOptions words,
        found.2 = last.2 ∧ scope.owner? found.1.option = scope.owner? string)),
    scope.owner? first ≠ scope.owner? last.1.option

/-- The value that is kept of the option of an occurrence. -/
def keptValue (scope : Scope) (words strings : List String) (last : Occurrence × Nat) : String :=
  valueIn (scope.optionTable.settledOptions words)
    (strings.filter fun string => decide (scope.owner? string = scope.owner? last.1.option))

/-- A test for values is misread: the last occurrence of one of the options is overlooked, and
an empty value passes the test while its value does not or the other way round; or it is seen
and has no value, but the value that is kept of its option passes. -/
def MisreadValue (scope : Scope) (words strings values : List String) : Prop :=
  ∃ last ∈ lastIn (scope.optionTable.placedOptions words) strings,
    scope.Overlooked words strings last ∧
        ¬ ("" ∈ values ↔ ∃ value ∈ last.1.value, value ∈ values) ∨
      ¬ scope.Overlooked words strings last ∧ last.1.value = none ∧
        scope.keptValue words strings last ∈ values

/-- A condition on a value is misread. -/
def Misread (scope : Scope) (words : List String) : Condition → Prop
  | .hasOption _ => False
  | .optionIs options values => ∃ strings,
    scope.referencedStrings (.optionIs options values) = .ok strings ∧
      scope.MisreadValue words strings values

/-- None of the strings is on the line, but another string of an option that one of them
belongs to. -/
def Overtaken (scope : Scope) (line : ParsedLine) (strings : List String) : Prop :=
  line.hasOption strings = false ∧ ∃ found ∈ line.occurrences, ∃ string ∈ strings,
    scope.owner? found.option = scope.owner? string

/-- The strings of a compiled condition are all strings of the options that it means. -/
theorem Distinct.closed {condition : Condition} (hdistinct : Distinct scope.levels)
    (hstrings : scope.referencedStrings condition = .ok strings) : scope.Closed strings := by
  intro string hstring
  obtain ⟨reference, hreference, meant, hmeant, hmem⟩ := (mem_referencedStrings hstrings).mp hstring
  have hvisible := (hdistinct.resolveReference_eq_ok.mp hmeant).1
  refine ⟨meant, owner?_of_visible hdistinct hvisible hmem, fun other hother => ?_⟩
  exact (mem_referencedStrings hstrings).mpr
    ⟨reference, hreference, meant, hmeant, (mem_of_owner? hother).2⟩

/-- Conflicting strings are known. -/
theorem exists_owner?_of_conflicting {declared : Declaration}
    (hconflict : string ∈ scope.conflictingStrings declared) :
    ∃ owner, scope.owner? string = some owner := by
  obtain ⟨peer, hknown, -, -, hstring⟩ := mem_conflictingStrings.mp hconflict
  obtain ⟨owner, howner, -⟩ := exists_owner? hknown hstring
  exact ⟨owner, howner⟩

end Scope

namespace Bash

variable {scope : Scope} {option : ScopedOption} {state : LoopState} {string : String}
  {strings words values : List String} {last : Occurrence × Nat}

/-- The value that a test compares is the one that is kept. -/
theorem Represents.tested_eq (hrep : Represents scope state words)
    (hoption : option ∈ scopedOptions scope) :
    state.tested option = valueIn (scope.optionTable.settledOptions words) option.strings := by
  rw [LoopState.tested]
  cases harity : option.arity with
  | absent => exact (hrep.keeps.absent option hoption harity).symm
  | optional => exact hrep.keeps.value option hoption
  | required => exact hrep.keeps.value option hoption

/-- The options of closed strings have no other strings. -/
theorem strings_subset_of_closed (hclosed : scope.Closed strings)
    (hoption : option ∈ ownersOf (scopedOptions scope) strings) : option.strings ⊆ strings := by
  obtain ⟨hknown, string, hstring, hmem⟩ := mem_ownersOf.mp hoption
  obtain ⟨declared, howner, hall⟩ := hclosed string hstring
  intro other hother
  rw [mem_strings_iff hknown, howner, Option.some.injEq] at hmem
  exact hall other (hmem ▸ (mem_strings_iff hknown).mp hother)

/-- If no option of closed strings was given, none has a position. -/
theorem Represents.position_eq_zero (hrep : Represents scope state words)
    (hclosed : scope.Closed strings)
    (hnone : lastIn (scope.optionTable.placedOptions words) strings = none)
    (hoption : option ∈ ownersOf (scopedOptions scope) strings) :
    state.position option.name = 0 := by
  rw [hrep.keeps.position option (mem_ownersOf.mp hoption).1, positionIn]
  cases hfound : lastIn (scope.optionTable.placedOptions words) option.strings with
  | none => rfl
  | some found =>
    obtain ⟨hplaced, hmem⟩ := mem_of_lastIn hfound
    obtain ⟨last, hlast⟩ := exists_lastIn hplaced (strings_subset_of_closed hclosed hoption hmem)
    rw [hnone] at hlast
    cases hlast

/-- No option of closed strings has a position after that of the last occurrence. -/
theorem Represents.position_le (hrep : Represents scope state words)
    (hclosed : scope.Closed strings)
    (hlast : lastIn (scope.optionTable.placedOptions words) strings = some last)
    (hoption : option ∈ ownersOf (scopedOptions scope) strings) :
    state.position option.name ≤ last.2 := by
  rw [hrep.keeps.position option (mem_ownersOf.mp hoption).1, positionIn]
  cases hfound : lastIn (scope.optionTable.placedOptions words) option.strings with
  | none => exact Nat.zero_le _
  | some found =>
    obtain ⟨hplaced, hmem⟩ := mem_of_lastIn hfound
    exact OptionTable.le_of_lastIn hlast hplaced (strings_subset_of_closed hclosed hoption hmem)

/-- An option of closed strings has the position of the last occurrence if it is in the same
word. -/
theorem Represents.position_eq_iff (hrep : Represents scope state words)
    (hclosed : scope.Closed strings)
    (hlast : lastIn (scope.optionTable.placedOptions words) strings = some last)
    (hoption : option ∈ ownersOf (scopedOptions scope) strings) :
    state.position option.name = last.2 ↔ ∃ found ∈ scope.optionTable.placedOptions words,
      found.2 = last.2 ∧ found.1.option ∈ option.strings := by
  have hknown := (mem_ownersOf.mp hoption).1
  have hle := hrep.position_le hclosed hlast hoption
  rw [hrep.keeps.position option hknown, positionIn] at hle ⊢
  constructor
  · intro hposition
    cases hfound : lastIn (scope.optionTable.placedOptions words) option.strings with
    | none =>
      rw [hfound] at hposition
      exact absurd hposition.symm
        (Nat.ne_of_gt (OptionTable.pos_of_mem_placedOptions (mem_of_lastIn hlast).1))
    | some found =>
      rw [hfound] at hposition
      obtain ⟨hplaced, hmem⟩ := mem_of_lastIn hfound
      exact ⟨found, hplaced, hposition, hmem⟩
  · rintro ⟨found, hplaced, hplace, hmem⟩
    obtain ⟨latest, hlatest⟩ := exists_lastIn hplaced hmem
    rw [hlatest] at hle ⊢
    exact Nat.le_antisymm hle (hplace ▸ OptionTable.le_of_lastIn hlatest hplaced hmem)

/-- The first of the options in the word of the last occurrence is the first option with the
greatest position. -/
theorem Represents.find?_ownersOf_eq (hrep : Represents scope state words)
    (hclosed : scope.Closed strings)
    (hlast : lastIn (scope.optionTable.placedOptions words) strings = some last) {first : String}
    (hfirst : strings.find? (fun string =>
      decide (∃ found ∈ scope.optionTable.placedOptions words,
        found.2 = last.2 ∧ scope.owner? found.1.option = scope.owner? string)) = some first)
    (hoption : option ∈ scopedOptions scope) (hmem : first ∈ option.strings) :
    (ownersOf (scopedOptions scope) strings).find? (state.position ·.name == last.2) =
      some option := by
  have hposition : ∀ {string option}, string ∈ strings → option ∈ scopedOptions scope →
      string ∈ option.strings → (state.position option.name = last.2 ↔
        ∃ found ∈ scope.optionTable.placedOptions words,
          found.2 = last.2 ∧ scope.owner? found.1.option = scope.owner? string) := by
    intro string option hstring hoption hmem
    rw [hrep.position_eq_iff hclosed hlast (mem_ownersOf.mpr ⟨hoption, string, hstring, hmem⟩)]
    simp only [owner?_of_mem_strings hoption hmem, mem_strings_iff hoption]
  obtain ⟨htest, before, after, rfl, hbefore⟩ := List.find?_eq_some_iff_append.mp hfirst
  rw [find?_ownersOf, List.find?_eq_some_iff_append]
  refine ⟨?_, before.filterMap (ownerOf? (scopedOptions scope)),
    after.filterMap (ownerOf? (scopedOptions scope)), ?_, fun other hother => ?_⟩
  · rw [beq_iff_eq, hposition (by simp) hoption hmem]
    simpa using htest
  · rw [List.filterMap_append, List.filterMap_cons_some
      (ownerOf?_eq_some_iff.mpr ⟨hoption, owner?_of_mem_strings hoption hmem⟩)]
  · obtain ⟨string, hstring, howner⟩ := List.mem_filterMap.mp hother
    obtain ⟨hknown, howner⟩ := ownerOf?_eq_some_iff.mp howner
    have hnot := hbefore string hstring
    rw [Bool.not_eq_true', beq_eq_false_iff_ne, ne_eq,
      hposition (by simp [hstring]) hknown ((mem_strings_iff hknown).mpr howner)]
    simpa using hnot

/-- The first of the options in the word of the last occurrence is tested. It is that of the
last occurrence, unless that one is overlooked; then it is an option without values. -/
theorem Represents.exists_latest (hrep : Represents scope state words)
    (hclosed : scope.Closed strings)
    (hlast : lastIn (scope.optionTable.placedOptions words) strings = some last) :
    ∃ option ∈ ownersOf (scopedOptions scope) strings,
      state.latest (ownersOf (scopedOptions scope) strings) = (last.2, state.tested option) ∧
      (scope.Overlooked words strings last → option.arity = .absent) ∧
      (¬ scope.Overlooked words strings last → last.1.option ∈ option.strings) := by
  obtain ⟨hplaced, hstring⟩ := mem_of_lastIn hlast
  obtain ⟨first, hfirst⟩ : ∃ first, strings.find? (fun string =>
      decide (∃ found ∈ scope.optionTable.placedOptions words,
        found.2 = last.2 ∧ scope.owner? found.1.option = scope.owner? string)) = some first :=
    Option.isSome_iff_exists.mp (List.find?_isSome.mpr
      ⟨_, hstring, decide_eq_true ⟨last, hplaced, rfl, rfl⟩⟩)
  have hfirst_mem := List.mem_of_find?_eq_some hfirst
  obtain ⟨declared, howner, -⟩ := hclosed first hfirst_mem
  obtain ⟨option, hoption, rfl, hmem⟩ := exists_scopedOption.mpr howner
  have howners := mem_ownersOf.mpr ⟨hoption, first, hfirst_mem, hmem⟩
  have hfind := hrep.find?_ownersOf_eq hclosed hlast hfirst hoption hmem
  have hposition : state.position option.name = last.2 := by simpa using List.find?_some hfind
  refine ⟨option, howners, LoopState.latest_eq_of_find?
    (OptionTable.pos_of_mem_placedOptions hplaced)
    (fun other hother => hrep.position_le hclosed hlast hother) hfind, ?_, fun hseen => ?_⟩
  · rintro ⟨first', hfirst', hne⟩
    obtain rfl : first' = first := Option.some.inj (hfirst'.symm.trans hfirst)
    obtain ⟨found, hfound, hplace, hfound_mem⟩ :=
      (hrep.position_eq_iff hclosed hlast howners).mp hposition
    have hcloser := strings_subset_of_closed hclosed howners hfound_mem
    rcases eq_or_of_lastIn (scope.optionTable.pairwise_placedOptions words) hlast hfound hcloser
      with rfl | hlt | ⟨-, hflag⟩
    · exact absurd (howner.trans (owner?_of_mem_strings hoption hfound_mem).symm) hne
    · omega
    · exact (isFlag_iff hoption hfound_mem).mp hflag
  · rw [mem_strings_iff hoption, ← howner]
    by_contra hne
    exact hseen ⟨first, hfirst, fun hsame => hne hsame.symm⟩

/-- The value kept for an occurrence is that of its option. -/
theorem keptValue_eq (hclosed : scope.Closed strings)
    (hoption : option ∈ ownersOf (scopedOptions scope) strings)
    (hmem : last.1.option ∈ option.strings) : scope.keptValue words strings last =
      valueIn (scope.optionTable.settledOptions words) option.strings := by
  have hknown := (mem_ownersOf.mp hoption).1
  refine valueIn_congr fun string => ?_
  rw [List.mem_filter, decide_eq_true_eq, owner?_of_mem_strings hknown hmem,
    ← mem_strings_iff hknown]
  exact and_iff_right_of_imp fun hstring => strings_subset_of_closed hclosed hoption hstring

/-- A test for values is misread exactly if the last occurrence is. -/
theorem Represents.holds_optionIs_ne_iff (hrep : Represents scope state words)
    (hclosed : scope.Closed strings) (values : List String) :
    (Query.of (scopedOptions scope) (.optionIs strings values)).holds state ≠
        (scope.optionTable.parseLine words).optionIs strings values ↔
      scope.MisreadValue words strings values := by
  have hline : (scope.optionTable.parseLine words).optionIs strings values = true ↔
      ∃ last ∈ lastIn (scope.optionTable.placedOptions words) strings,
        ∃ value ∈ last.1.value, value ∈ values := by
    rw [ParsedLine.optionIs, lastOf?_eq_lastIn
      (scope.optionTable.map_fst_placedOptions words).symm]
    cases hlast : lastIn (scope.optionTable.placedOptions words) strings with
    | none => simp
    | some last => cases hvalue : last.1.value <;> simp [hvalue]
  rw [ne_eq, Bool.eq_iff_iff, hline, Query.of, Query.holds, Scope.MisreadValue]
  cases hlast : lastIn (scope.optionTable.placedOptions words) strings with
  | none =>
    have hzero : state.latest (ownersOf (scopedOptions scope) strings) = (0, "") :=
      LoopState.foldl_better_of_le fun option hoption =>
        Nat.le_of_eq (hrep.position_eq_zero hclosed hlast hoption)
    simp [hzero]
  | some last =>
    obtain ⟨option, hoption, hlatest, hflag, hseen⟩ := hrep.exists_latest hclosed hlast
    have hknown := (mem_ownersOf.mp hoption).1
    have hplace : last.2 ≠ 0 :=
      Nat.ne_of_gt (OptionTable.pos_of_mem_placedOptions (mem_of_lastIn hlast).1)
    have hquery : (let latest := state.latest (ownersOf (scopedOptions scope) strings)
        latest.1 != 0 && values.contains latest.2) = true ↔ state.tested option ∈ values := by
      simp [hlatest, hplace]
    rw [hquery, hrep.tested_eq hknown]
    by_cases hoverlooked : scope.Overlooked words strings last
    · rw [hrep.keeps.absent option hknown (hflag hoverlooked)]
      simp [hoverlooked]
    · rw [← keptValue_eq hclosed hoption (hseen hoverlooked)]
      cases hvalue : last.1.value with
      | none => simp [hoverlooked, hvalue]
      | some value =>
        have hkept : scope.keptValue words strings last = value := by
          rw [keptValue_eq hclosed hoption (hseen hoverlooked)]
          exact OptionTable.valueIn_settledOptions_of_value (lastIn_of_subset hlast
            (strings_subset_of_closed hclosed hoption) (hseen hoverlooked)) hvalue
        simp [hoverlooked, hvalue, hkept]

/-- A test for options asks whether one of the options that the strings belong to was given
under any string. -/
theorem Represents.holds_hasOption_iff (hrep : Represents scope state words)
    (hknown : ∀ string ∈ strings, ∃ owner, scope.owner? string = some owner) :
    (Query.of (scopedOptions scope) (.hasOption strings)).holds state = true ↔
      ∃ found ∈ (scope.optionTable.parseLine words).occurrences, ∃ string ∈ strings,
        scope.owner? found.option = scope.owner? string := by
  have hgiven : (Query.of (scopedOptions scope) (.hasOption strings)).holds state = true ↔
      ∃ option ∈ ownersOf (scopedOptions scope) strings, state.position option.name ≠ 0 := by
    rw [Query.of]
    split
    · rename_i hempty
      simp [Query.holds, List.isEmpty_iff.mp hempty]
    · simp [Query.holds]
  have hposition : ∀ option ∈ scopedOptions scope, state.position option.name ≠ 0 ↔
      ∃ found ∈ (scope.optionTable.parseLine words).occurrences,
        scope.owner? found.option = some option.declared := by
    intro option hoption
    rw [hrep.keeps.position option hoption, OptionTable.positionIn_ne_zero_iff,
      ParsedLine.hasOption, List.any_eq_true]
    simp only [List.contains_iff_mem, mem_strings_iff hoption]
  rw [hgiven]
  constructor
  · rintro ⟨option, hoption, hfound⟩
    obtain ⟨hscoped, string, hstring, hmem⟩ := mem_ownersOf.mp hoption
    obtain ⟨found, hline, howner⟩ := (hposition option hscoped).mp hfound
    exact ⟨found, hline, string, hstring, howner.trans (owner?_of_mem_strings hscoped hmem).symm⟩
  · rintro ⟨found, hline, string, hstring, hsame⟩
    obtain ⟨owner, howner⟩ := hknown string hstring
    obtain ⟨option, hscoped, rfl, hmem⟩ := exists_scopedOption.mpr howner
    exact ⟨option, mem_ownersOf.mpr ⟨hscoped, string, hstring, hmem⟩,
      (hposition option hscoped).mpr ⟨found, hline, hsame.trans howner⟩⟩

/-- A test for options with closed strings is read correctly. -/
theorem Represents.holds_hasOption (hrep : Represents scope state words)
    (hclosed : scope.Closed strings) :
    (Query.of (scopedOptions scope) (.hasOption strings)).holds state =
      (scope.optionTable.parseLine words).hasOption strings := by
  rw [Bool.eq_iff_iff, hrep.holds_hasOption_iff fun string hstring =>
    (hclosed string hstring).imp fun _ howner => howner.1, ParsedLine.hasOption, List.any_eq_true]
  refine exists_congr fun found => and_congr_right fun _ => ?_
  rw [List.contains_iff_mem]
  constructor
  · rintro ⟨string, hstring, hsame⟩
    obtain ⟨declared, howner, hall⟩ := hclosed string hstring
    exact hall _ (hsame.trans howner)
  · intro hmem
    exact ⟨_, hmem, rfl⟩

/-- The guard of a condition is misread exactly if the condition is. -/
theorem Represents.eval_whenGuard_ne_iff (hrep : Represents scope state words)
    (hdistinct : Scope.Distinct scope.levels) {condition? : Option Condition} {guard : Guard}
    (hguard : scope.whenGuard condition? = .ok guard) :
    (guard.eval fun test => (Query.of (scopedOptions scope) test).holds state) ≠
        guard.holds (scope.optionTable.parseLine words) ↔
      ∃ condition ∈ condition?, scope.Misread words condition := by
  cases condition? with
  | none =>
    cases hguard
    simp [Guard.holds]
  | some condition =>
    obtain ⟨strings, hstrings, rfl⟩ := Scope.compile_eq_ok.mp hguard
    have hclosed := hdistinct.closed hstrings
    cases condition with
    | hasOption options => simp [Guard.eval, Guard.holds, Test.holds, hrep.holds_hasOption hclosed,
        Scope.Misread]
    | optionIs options values =>
      simpa [Guard.eval, Guard.holds, Test.holds, Scope.Misread, hstrings] using
        hrep.holds_optionIs_ne_iff hclosed values

/-- The guard of a visible option is misread exactly if it is overtaken where the option is
offered, or if nothing conflicts and its condition is misread. -/
theorem Represents.eval_optionGuard_ne_iff (hrep : Represents scope state words)
    (hdistinct : Scope.Distinct scope.levels) {declared : Declaration} {guard shown : Guard}
    (hshown : scope.whenGuard declared.option.when = .ok shown)
    (hguard : scope.optionGuard declared = .ok guard) :
    (guard.eval fun test => (Query.of (scopedOptions scope) test).holds state) ≠
        guard.holds (scope.optionTable.parseLine words) ↔
      scope.Overtaken (scope.optionTable.parseLine words) (scope.conflictingStrings declared) ∧
          shown.holds (scope.optionTable.parseLine words) = true ∨
        (scope.optionTable.parseLine words).hasOption (scope.conflictingStrings declared) = false ∧
          ¬ scope.Overtaken (scope.optionTable.parseLine words)
            (scope.conflictingStrings declared) ∧
          ∃ condition ∈ declared.option.when, scope.Misread words condition := by
  have hline : guard.holds (scope.optionTable.parseLine words) = _ :=
    Scope.eval_optionGuard (by simp [Test.holds, ParsedLine.hasOption]) hshown hguard
  have hbash : (guard.eval fun test => (Query.of (scopedOptions scope) test).holds state) = _ :=
    Scope.eval_optionGuard rfl hshown hguard
  have hknown : ∀ string ∈ scope.conflictingStrings declared,
      ∃ owner, scope.owner? string = some owner :=
    fun string hstring => Scope.exists_owner?_of_conflicting hstring
  have hgiven := hrep.holds_hasOption_iff hknown
  -- A conflicting string on the line is found by both.
  have hboth : (scope.optionTable.parseLine words).hasOption (scope.conflictingStrings declared) =
      true → (Query.of (scopedOptions scope)
        (.hasOption (scope.conflictingStrings declared))).holds state = true := by
    intro hconflict
    obtain ⟨found, hfound, hmem⟩ := List.any_eq_true.mp hconflict
    exact hgiven.mpr ⟨found, hfound, _, List.contains_iff_mem.mp hmem, rfl⟩
  rw [hline, hbash, Scope.Overtaken, ← hgiven, ← hrep.eval_whenGuard_ne_iff hdistinct hshown]
  change (!_ && _) ≠ (!ParsedLine.hasOption _ _ && shown.holds _) ↔ _
  revert hboth
  generalize (scope.optionTable.parseLine words).hasOption _ = conflict
  generalize Query.holds state _ = given
  generalize shown.eval _ = read
  generalize shown.holds _ = offered
  revert conflict given read offered
  decide

end Bash

namespace CommandTree

/-- The guards of a command's options and conditions are read in bash as they are meant on
every line, except where a condition on a value is misread or an option that conflicts is
overtaken. -/
theorem eval_query_ne_iff {tree : CommandTree} (hbuilt : tree.Built) (config : Config) (id : Nat)
    (words : List String) :
    let scope := tree.scope config id
    let line := scope.optionTable.parseLine words
    (∃ state, Bash.Represents scope state words) ∧
    ∀ state, Bash.Represents scope state words →
      let read := Guard.eval fun test =>
        (Bash.Query.of (Bash.scopedOptions scope) test).holds state
      (∀ condition? guard, scope.whenGuard condition? = .ok guard →
        (read guard ≠ guard.holds line ↔
          ∃ condition ∈ condition?, scope.Misread words condition)) ∧
      ∀ declared guard, scope.optionGuard declared = .ok guard →
        ∃ shown, scope.whenGuard declared.option.when = .ok shown ∧
          (read guard ≠ guard.holds line ↔
            scope.Overtaken line (scope.conflictingStrings declared) ∧ shown.holds line = true ∨
              line.hasOption (scope.conflictingStrings declared) = false ∧
                ¬ scope.Overtaken line (scope.conflictingStrings declared) ∧
                ∃ condition ∈ declared.option.when, scope.Misread words condition) := by
  intro scope line
  have hdistinct := hbuilt.wellFormed.distinct config id
  refine ⟨⟨_, Bash.represents_ofLine scope words⟩, fun state hrep => ⟨fun condition? guard hguard =>
    hrep.eval_whenGuard_ne_iff hdistinct hguard, fun declared guard hguard => ?_⟩⟩
  obtain ⟨shown, hshown, -⟩ := bind_eq_ok.mp hguard
  exact ⟨shown, hshown, hrep.eval_optionGuard_ne_iff hdistinct hshown hguard⟩

/-- A flag and an option with a value. -/
def flagAndValue : List CommandOption :=
  [CommandOption.ofStrings ["-a"] (by decide),
    { CommandOption.ofStrings ["-b"] (by decide) with arity := .required }]

/-- An option that is shown after one of two others with a value. -/
def shownAfter : CommandOption :=
  { CommandOption.ofStrings ["--c"] (by decide) with
    when := some (.optionIs ["-a", "-b"] ["x"]) }

/-- A program with a flag, an option with a value, and one that is shown after these. -/
def stacking : CommandTree :=
  ⟨#[{ command := { name := "prog", options := flagAndValue ++ [shownAfter] } }]⟩

/-- The options are told apart. -/
theorem built_stacking : stacking.Built := by
  have hdisjoint : (flagAndValue ++ [shownAfter]).Pairwise
      fun a b => a.strings.Disjoint b.strings := by
    simp [flagAndValue, shownAfter, CommandOption.ofStrings]
  exact (Built.new "prog").addOptions Nat.one_pos hdisjoint

/-- The premise holds of the program, and its loop finds what the table finds on a line. -/
theorem eval_query_ne_iff_stacking :
    let scope := stacking.scope {} 0
    let line := scope.optionTable.parseLine ["-b", "x"]
    let state := Bash.readWords (Bash.scopedOptions scope) ["-b", "x"]
    let read := Guard.eval fun test =>
      (Bash.Query.of (Bash.scopedOptions scope) test).holds state
    stacking.Built ∧ Bash.Represents scope state ["-b", "x"] ∧
      ∃ guard, scope.whenGuard shownAfter.when = .ok guard ∧
        (read guard ≠ guard.holds line ↔
          ∃ condition ∈ shownAfter.when, scope.Misread ["-b", "x"] condition) := by
  intro scope line state read
  have hrep : Bash.Represents scope state ["-b", "x"] := .readWords (by decide +kernel) _
  have hguards := (eval_query_ne_iff built_stacking {} 0 ["-b", "x"]).2 state hrep
  exact ⟨built_stacking, hrep, _, rfl, hguards.1 _ _ rfl⟩

/-- The document of the program. -/
def stackingDocument : CommandDocument where
  prog := "prog"
  options := [{ optionStrings := ["-a"], takesArgs := .absent }, { optionStrings := ["-b"] },
    { optionStrings := ["--c"], takesArgs := .absent, when := some "option_is -a -b -- x" }]

/-- The tree is read from the document. -/
theorem ofDocuments_stackingDocument : ofDocuments [stackingDocument] = .ok stacking := by
  rw [ofDocuments, List.mergeSort_singleton]
  simp only [CommandDocument.applyTo, CommandDocument.orderedPositionals, List.foldlM_cons,
    List.foldlM_nil, stackingDocument, List.mergeSort_nil]
  rfl

/-- In one word the option with the value comes last and has the value, but bash tests the
flag. -/
theorem eval_query_ne_of_stacked :
    let scope := stacking.scope {} 0
    let line := scope.optionTable.parseLine ["-abx"]
    let state := Bash.readWords (Bash.scopedOptions scope) ["-abx"]
    ofDocuments [stackingDocument] = .ok stacking ∧ Bash.Represents scope state ["-abx"] ∧
      ∃ declared ∈ scope.visibleOptions, ∃ guard, scope.optionGuard declared = .ok guard ∧
      guard.holds line = true ∧
      (guard.eval fun test => (Bash.Query.of (Bash.scopedOptions scope) test).holds state) =
        false := by
  exact ⟨ofDocuments_stackingDocument, .readWords (by decide +kernel) _, ⟨0, 2, shownAfter⟩,
    by decide +kernel, _, rfl, by decide +kernel, by decide +kernel⟩

end CommandTree

end ShellCompletion
