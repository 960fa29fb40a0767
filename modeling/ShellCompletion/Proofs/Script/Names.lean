import ShellCompletion.Proofs.CommandTree.Operations
import ShellCompletion.Proofs.Script.Bash.ScopedOptions
import ShellCompletion.Proofs.Script.Functions

/-!
# Names given in turn

The functions of commands get their names one after the other, and so do the variables of the
options in a function. Where a name was given before, the base name is tried with one number after
the other. This always ends, with names that are all different and that every shell can read,
whatever the commands and options are called.
-/

namespace ShellCompletion

variable {taken bases names : List String} {base name found : String}

namespace Text

/-- A name made of ASCII letters, digits and underscores. -/
def IsName (name : String) : Prop :=
  name ≠ "" ∧ ∀ c ∈ name.toList,
    ('a' ≤ c ∧ c ≤ 'z') ∨ ('A' ≤ c ∧ c ≤ 'Z') ∨ ('0' ≤ c ∧ c ≤ '9') ∨ c = '_'

/-- The search for a name that is not taken, which tries a name and then the base with one number
after the other, ends with the found name. -/
inductive Finds (taken : List String) (base : String) : String → Nat → String → Prop
  /-- A name that is not taken ends the search. -/
  | free {name : String} {number : Nat} (hfree : name ∉ taken) :
      Finds taken base name number name
  /-- After a name that is taken the search goes on with the next number. -/
  | next {name found : String} {number : Nat} (htaken : name ∈ taken)
      (hrest : Finds taken base (numbered base number) (number + 1) found) :
      Finds taken base name number found

/-- A search ends with one name. -/
theorem Finds.unique {number : Nat} {other : String} (hfound : Finds taken base name number found)
    (hother : Finds taken base name number other) : found = other := by
  induction hfound with
  | free hfree =>
    cases hother with
    | free _ => rfl
    | next htaken _ => exact absurd htaken hfree
  | next htaken _ ih =>
    cases hother with
    | free hfree => exact absurd htaken hfree
    | next _ hrest => exact ih hrest

/-- A search that begins with a number ends, if there is enough fuel for it. -/
theorem finds_freshFrom {fuel number : Nat} (hfree : freshFrom taken base fuel number ∉ taken) :
    Finds taken base (numbered base number) (number + 1) (freshFrom taken base fuel number) := by
  induction fuel generalizing number with
  | zero => exact .free hfree
  | succ fuel ih =>
    rw [freshFrom] at hfree ⊢
    split
    · rename_i htaken
      rw [if_pos htaken] at hfree
      exact .next (List.contains_iff_mem.mp htaken) (ih hfree)
    · rename_i hnew
      rw [if_neg hnew] at hfree
      exact .free hfree

/-- The search for a name ends with the name that is found. -/
theorem finds_iff : Finds taken base base 2 found ↔ found = fresh taken base := by
  have hends : Finds taken base base 2 (fresh taken base) := by
    have hfree := fresh_notMem taken base
    rw [fresh] at hfree ⊢
    split
    · rename_i htaken
      rw [if_pos htaken] at hfree
      exact .next (List.contains_iff_mem.mp htaken) (finds_freshFrom hfree)
    · rename_i hnew
      rw [if_neg hnew] at hfree
      exact .free hfree
  exact ⟨fun hfound => hfound.unique hends, fun hsame => hsame ▸ hends⟩

/-- A text is a name if it is not empty and all its characters are for names. -/
theorem isName_of_isNameChar (hne : name ≠ "") (hchars : ∀ c ∈ name.toList, isNameChar c = true) :
    IsName name := by
  refine ⟨hne, fun c hc => ?_⟩
  have hchar := hchars c hc
  change (((decide ('A' ≤ c ∧ c ≤ 'Z') || (decide ('a' ≤ c) && decide (c ≤ 'z'))) ||
    (decide ('0' ≤ c) && decide (c ≤ '9'))) || c == '_') = true at hchar
  simp only [Bool.or_eq_true, Bool.and_eq_true, decide_eq_true_eq, beq_iff_eq] at hchar
  tauto

/-- The name found for a base that is a name is a name. -/
theorem IsName.fresh (hbase : ∀ c ∈ base.toList, isNameChar c = true) (hne : base ≠ "") :
    IsName (fresh taken base) := by
  refine isName_of_isNameChar (fun hempty => hne ?_) (isNameChar_of_mem_fresh hbase)
  have hprefix := prefix_fresh taken base
  rw [hempty] at hprefix
  exact String.toList_eq_nil_iff.mp (List.prefix_nil.mp hprefix)

end Text

/-- Names are found one after the other, for one base after the other, each of them different from
the taken names and from the names before it. -/
inductive NamedInTurn : List String → List String → List String → Prop
  /-- No base is left. -/
  | nil {taken : List String} : NamedInTurn taken [] []
  /-- The search for a name for the first base ends, and the name is taken from then on. -/
  | cons {taken bases names : List String} {base name : String}
      (hname : Text.Finds taken base base 2 name)
      (hrest : NamedInTurn (taken ++ [name]) bases names) :
      NamedInTurn taken (base :: bases) (name :: names)

/-- All the searches end, with the names that are made different from those before them. -/
theorem namedInTurn_iff : NamedInTurn taken bases names ↔ names = distinctNames taken bases := by
  induction bases generalizing taken names with
  | nil =>
    refine ⟨?_, fun hnames => hnames ▸ .nil⟩
    rintro ⟨⟩
    rfl
  | cons base bases ih =>
    rw [distinctNames]
    constructor
    · rintro (_ | ⟨hname, hrest⟩)
      rw [Text.finds_iff] at hname
      rw [hname] at hrest ⊢
      rw [ih.mp hrest]
    · rintro rfl
      exact .cons (Text.finds_iff.mpr rfl) (ih.mpr rfl)

/-- What is made different from what stands before it is a name if its base is one. -/
theorem isName_of_mem_distinctNames
    (hbases : ∀ base ∈ bases, base ≠ "" ∧ ∀ c ∈ base.toList, Text.isNameChar c = true)
    (hname : name ∈ distinctNames taken bases) : Text.IsName name := by
  induction bases generalizing taken with
  | nil => cases hname
  | cons base bases ih =>
    obtain ⟨⟨hne, hchars⟩, hrest⟩ := List.forall_mem_cons.mp hbases
    rcases List.mem_cons.mp hname with rfl | hname
    · exact .fresh hchars hne
    · exact ih hrest hname

/-! ## Variables of options -/

namespace Bash

/-- The base of the names of an option's variables is a name. -/
theorem baseName_ne_empty (strings : List String) :
    baseName strings ≠ "" ∧ ∀ c ∈ (baseName strings).toList, Text.isNameChar c = true := by
  have hdefault : "option" ≠ "" := by decide
  have hchars : "option".toList.all Text.isNameChar = true := by decide
  unfold baseName
  extract_lets name
  by_cases hempty : name.isEmpty = true
  · rw [if_pos hempty]
    exact ⟨hdefault, List.all_eq_true.mp hchars⟩
  · rw [if_neg hempty]
    exact ⟨by simpa using hempty, fun c => Text.isNameChar_of_mem_identifier⟩

/-- The options of a function get the names of their variables in turn. -/
theorem map_name_scopedOptions (scope : Scope) : (scopedOptions scope).map (·.name) =
    distinctNames [] ((scopedOptions scope).map fun option => baseName option.strings) := by
  have hclaims : (scopedOptions scope).map (fun option => baseName option.strings) =
      (claim [] scope.knownOptions).map fun entry => baseName entry.2 := by
    simp only [← map_scopedOptions, List.map_map, Function.comp_def]
  rw [hclaims]
  exact map_name_nameClaims _ _ _ _

end Bash

/-! ## Functions of commands -/

namespace CommandTree

variable {tree : CommandTree} {id other : Nat}

/-- The name that a command's function has if no other function has it is a name. -/
theorem baseFunctionName_ne_empty (tree : CommandTree) (id : Nat) :
    tree.baseFunctionName id ≠ "" ∧
      ∀ c ∈ (tree.baseFunctionName id).toList, Text.isNameChar c = true := by
  rw [baseFunctionName]
  constructor
  · simp
  · intro c hc
    rw [String.toList_append, List.mem_append] at hc
    rcases hc with hc | hc
    · rw [List.mem_singleton.mp hc]
      rfl
    · exact Text.isNameChar_of_mem_identifier hc

/-- The commands on the walk get the names of their functions in turn. -/
theorem WellFormed.map_functionName_walk (hwf : tree.WellFormed) : tree.walk.map tree.functionName =
    distinctNames [] (tree.walk.map tree.baseFunctionName) := by
  have hkeys : (tree.functionNames.map (·.1)).Nodup := by
    rw [map_fst_functionNames]
    exact hwf.nodup_walkFrom
  have hlookup : ∀ entry ∈ tree.functionNames, tree.functionName entry.1 = entry.2 := by
    intro entry hentry
    obtain ⟨before, after, hsplit⟩ := List.append_of_mem hentry
    rw [hsplit, List.map_append, List.map_cons, List.nodup_middle, List.nodup_cons] at hkeys
    have hsome : tree.functionNames.lookup entry.1 = some entry.2 := by
      refine List.lookup_eq_some_iff.mpr ⟨before, after, hsplit, fun other hother => ?_⟩
      rw [bne_iff_ne]
      intro hsame
      exact hkeys.1 (List.mem_append_left _ (hsame ▸ List.mem_map_of_mem hother))
    rw [functionName, hsome]
    rfl
  rw [← commandFunctions_eq, commandFunctions, ← map_fst_functionNames, List.map_map]
  exact List.map_congr_left hlookup

/-- The functions of all commands of a tree get their names in turn, and so do the variables of
the options in the function of every command. All searches for a name end, with names that are
different and made of letters, digits and underscores. -/
theorem distinct_names (hbuilt : tree.Built) (config : Config) :
    ((∀ names, NamedInTurn [] (tree.walk.map tree.baseFunctionName) names ↔
          names = tree.walk.map tree.functionName) ∧
        (∀ id < tree.size, Text.IsName (tree.functionName id)) ∧
        ∀ id < tree.size, ∀ other < tree.size,
          tree.functionName id = tree.functionName other → id = other) ∧
      ∀ id < tree.size,
        let options := Bash.scopedOptions (tree.scope config id)
        (∀ names, NamedInTurn [] (options.map fun option => Bash.baseName option.strings) names ↔
            names = options.map (·.name)) ∧
          (∀ option ∈ options, Text.IsName option.name) ∧
          (options.map (·.name)).Nodup := by
  have hwf := hbuilt.wellFormed
  have hfunctions := hwf.map_functionName_walk
  refine ⟨⟨fun names => ?_, fun id hid => ?_, fun id hid other hother hsame => ?_⟩,
    fun id _ => ⟨fun names => ?_, fun option hoption => ?_, ?_⟩⟩
  · rw [namedInTurn_iff, hfunctions]
  · have hname := List.mem_map_of_mem (f := tree.functionName) (hwf.mem_walk.mpr hid)
    rw [hfunctions] at hname
    refine isName_of_mem_distinctNames (fun base hbase => ?_) hname
    obtain ⟨command, -, rfl⟩ := List.mem_map.mp hbase
    exact baseFunctionName_ne_empty tree command
  · have hnodup : (tree.walk.map tree.functionName).Nodup :=
      hfunctions ▸ (nodup_distinctNames _ _).1
    exact List.inj_on_of_nodup_map hnodup (hwf.mem_walk.mpr hid) (hwf.mem_walk.mpr hother) hsame
  · rw [namedInTurn_iff, Bash.map_name_scopedOptions]
  · have hname := List.mem_map_of_mem (f := (·.name)) hoption
    rw [Bash.map_name_scopedOptions] at hname
    refine isName_of_mem_distinctNames (fun base hbase => ?_) hname
    obtain ⟨other, -, rfl⟩ := List.mem_map.mp hbase
    exact Bash.baseName_ne_empty other.strings
  · rw [Bash.map_name_scopedOptions]
    exact (nodup_distinctNames _ _).1

/-- Commands and options whose names differ in characters that names do not have, and a command
that is called like another one with a number. -/
def collidingOperations : List Operation :=
  [.addSubcommand 0 "remote" "", .addSubcommand 1 "add" "", .addSubcommand 0 "remote-add" "",
    .addSubcommand 0 "remote_add2" "",
    .addGroup 0 "style" [CommandOption.ofStrings ["-x", "--no-color"] (by decide),
      CommandOption.ofStrings ["--no.color", "-é"] (by decide)],
    .addOption 2 (CommandOption.ofStrings ["-é"] (by decide)),
    .addOption 2 (CommandOption.ofStrings ["-?"] (by decide))]

/-- The names of the functions and variables for these commands and options are different. -/
theorem distinct_names_colliding :
    let tree := (new "git").perform collidingOperations
    let options := Bash.scopedOptions (tree.scope {} 2)
    tree.Built ∧ 2 < tree.size ∧
      tree.walk.map tree.functionName = ["_git", "_git_remote", "_git_remote_add",
        "_git_remote_add2", "_git_remote_add22"] ∧
      NamedInTurn [] (tree.walk.map tree.baseFunctionName) (tree.walk.map tree.functionName) ∧
      options.map (·.name) = ["_", "_2", "no_color", "no_color2"] ∧
      NamedInTurn [] (options.map fun option => Bash.baseName option.strings)
        (options.map (·.name)) ∧
      (options.map (·.name)).Nodup := by
  intro tree options
  have hids : (new "git").HandedOut collidingOperations := by
    refine ⟨?_, ?_, ?_, ?_, ?_, ?_, ?_, trivial⟩ <;> decide +kernel
  have hbuilt : tree.Built := (Built.new "git").perform hids
  have hsize : 2 < tree.size := by decide +kernel
  obtain ⟨⟨hfunctions, -, -⟩, hoptions⟩ := distinct_names hbuilt {}
  obtain ⟨hturn, -, hnodup⟩ := hoptions 2 hsize
  exact ⟨hbuilt, hsize, by decide +kernel, (hfunctions _).mpr rfl, by decide +kernel,
    (hturn _).mpr rfl, hnodup⟩

end CommandTree
end ShellCompletion
