import ShellCompletion.Proofs.CommandLine.Table
import ShellCompletion.Proofs.Scope.Conflicts
import ShellCompletion.Proofs.Scope.References

/-!
# What a command shows

Visibility drops an option as a whole if a nearer command declares one of its strings; the
table with which words are read drops single strings and keeps the options of all enclosing
commands. The two agree on every string of a visible option.
-/

namespace ShellCompletion

namespace Scope

variable {scope : Scope} {declared : Declaration} {string : String}

/-- A string is looked up in the table of a scope as the option that it belongs to. -/
theorem named?_optionTable (scope : Scope) (string : String) :
    scope.optionTable.named? string =
      (scope.owner? string).map fun declared => ⟨string, declared.option.arity⟩ := by
  change (OptionTable.ofOptions (scope.knownOptions.map (·.option))).named? string = _
  rw [OptionTable.named?_ofOptions, List.find?_map, Option.map_map]
  rfl

/-- Options that are not shadowed are some of those of the outer levels, in the same order. -/
theorem unshadowed_sublist (nearer levels : List Level) :
    (unshadowed nearer levels).Sublist (declarationsOf levels) := by
  induction levels generalizing nearer with
  | nil => exact List.Sublist.slnil
  | cons level outer ih => exact List.filter_sublist.append (ih (nearer ++ [level]))

/-- Visible options are some of those known, in the same order. -/
theorem visibleOptions_sublist (scope : Scope) :
    scope.visibleOptions.Sublist scope.knownOptions := by
  have hinherited : scope.inheritedOptions.Sublist (declarationsOf scope.outer) := by
    rw [inheritedOptions]
    split
    · exact unshadowed_sublist [scope.own] scope.outer
    · exact List.nil_sublist _
  exact (List.Sublist.refl scope.ownOptions).append hinherited

/-- No option is visible twice. -/
theorem nodup_visibleOptions (scope : Scope) : scope.visibleOptions.Nodup :=
  (nodup_declarationsOf scope.levels).sublist scope.visibleOptions_sublist

/-- Different visible options have no string in common. -/
theorem Distinct.pairwise_visibleOptions (hdistinct : Distinct scope.levels) :
    scope.visibleOptions.Pairwise fun a b => a.option.strings.Disjoint b.option.strings := by
  refine scope.nodup_visibleOptions.imp_of_mem fun hfirst hsecond hne string hstring hstring' => ?_
  exact hne (hdistinct.eq_of_visible hfirst hsecond hstring hstring')

end Scope

namespace CommandTree

/-- What a command shows is what its words are read with. Different visible options have no
string in common; each string of a visible option leads to this option, and has an entry of
its arity in the table of the command. The visible options are the command's own and, if it
inherits options, those of the enclosing commands of whose strings no nearer command declares
one again. -/
theorem visibleOptions_known {tree : CommandTree} (hbuilt : tree.Built) (config : Config)
    (id : Nat) :
    let scope := tree.scope config id
    (scope.visibleOptions.Pairwise fun a b => a.option.strings.Disjoint b.option.strings) ∧
    (∀ declared ∈ scope.visibleOptions, ∀ string ∈ declared.option.strings,
      scope.findOption? string = some declared ∧
        scope.optionTable.named? string = some ⟨string, declared.option.arity⟩) ∧
    ∀ declared, declared ∈ scope.visibleOptions ↔
      ∃ declaring ∈ tree.lineage id, declared ∈ (tree.scope config declaring).ownOptions ∧
        (declaring = id ∨ scope.inheritOptions = true ∧
          ¬ tree.RedeclaredBetween declaring id declared.option.strings) := by
  intro scope
  have hwf := hbuilt.wellFormed
  have hdistinct := hwf.distinct config id
  refine ⟨hdistinct.pairwise_visibleOptions, fun declared hvisible string hstring => ⟨?_, ?_⟩,
    fun declared => hwf.mem_visibleOptions⟩
  · exact hdistinct.findOption?_eq_some.mpr ⟨hvisible, hstring⟩
  · rw [Scope.named?_optionTable, Scope.owner?_of_visible hdistinct hvisible hstring]
    rfl

/-- The premise holds of a subcommand that inherits one of two formats and has a flag under the
string of the other one. -/
theorem visibleOptions_known_formats :
    let tree := withHeir formats yamlFlag
    let scope := tree.scope {} 1
    tree.Built ∧
    (scope.visibleOptions.Pairwise fun a b => a.option.strings.Disjoint b.option.strings) ∧
    (∀ declared ∈ scope.visibleOptions, ∀ string ∈ declared.option.strings,
      scope.findOption? string = some declared ∧
        scope.optionTable.named? string = some ⟨string, declared.option.arity⟩) ∧
    ∀ declared, declared ∈ scope.visibleOptions ↔
      ∃ declaring ∈ tree.lineage 1, declared ∈ (tree.scope {} declaring).ownOptions ∧
        (declaring = 1 ∨ scope.inheritOptions = true ∧
          ¬ tree.RedeclaredBetween declaring 1 declared.option.strings) := by
  have hbuilt : (withHeir formats yamlFlag).Built :=
    built_withHeir pairwise_formats (List.pairwise_singleton _ _)
  exact ⟨hbuilt, visibleOptions_known hbuilt {} 1⟩

end CommandTree
end ShellCompletion
