import Mathlib.Data.Set.Basic
import ShellCompletion.Proofs.Scope.Guards

/-!
# What conditions ask for

A condition names options by strings, in some order and perhaps more than once. What it asks
of a command line depends only on the options that these strings refer to, and on which
values it has: all strings of an option count, whichever of them the condition uses.
-/

namespace ShellCompletion

/-- The values that the condition has. -/
def Condition.values : Condition → List String
  | hasOption _ => []
  | optionIs _ values => values

/-- Whether something on a command line is one of some options. -/
def Occurrence.IsOf (found : Occurrence) (options : Set Declaration) : Prop :=
  ∃ declared ∈ options, found.option ∈ declared.option.strings

/-- What a condition of some form asks of a command line, said of the options that it means
and of its values: that one of the options was given, or that the last one given of them has
one of the values. -/
def ConditionForm.Asks (options : Set Declaration) (values : Set String) (line : ParsedLine) :
    ConditionForm → Prop
  | hasOption => ∃ found ∈ line.occurrences, found.IsOf options
  | optionIs => ∃ before last after, line.occurrences = before ++ last :: after ∧
      last.IsOf options ∧ (∀ later ∈ after, ¬ later.IsOf options) ∧
        ∃ value ∈ last.value, value ∈ values

/-- What was given last of some options is on the line, and nothing behind it is one of them. -/
theorem ParsedLine.lastOf?_eq_some_iff {line : ParsedLine} {strings : List String}
    {last : Occurrence} : line.lastOf? strings = some last ↔
      ∃ before after, line.occurrences = before ++ last :: after ∧ last.option ∈ strings ∧
        ∀ later ∈ after, later.option ∉ strings := by
  rw [lastOf?, List.find?_eq_some_iff_append]
  constructor
  · rintro ⟨hlast, after, before, hline, hafter⟩
    refine ⟨before.reverse, after.reverse, ?_, by simpa using hlast, by simpa using hafter⟩
    rw [← List.reverse_reverse line.occurrences, hline]
    simp
  · rintro ⟨before, after, hline, hlast, hafter⟩
    refine ⟨by simpa using hlast, after.reverse, before.reverse, ?_, by simpa using hafter⟩
    rw [hline]
    simp

namespace Scope

variable {scope : Scope} {condition first second : Condition} {guard other : Guard}

/-- The options that a condition means: those that one of its strings refers to. -/
def meant (scope : Scope) (condition : Condition) : Set Declaration :=
  {declared | ∃ string ∈ condition.options, scope.resolveReference string = .ok declared}

/-- The strings of a compiled condition are on a line exactly where one of the options is
that the condition means. -/
theorem mem_referencedStrings_iff_isOf {strings : List String}
    (hstrings : scope.referencedStrings condition = .ok strings) (found : Occurrence) :
    found.option ∈ strings ↔ found.IsOf (scope.meant condition) := by
  rw [mem_referencedStrings hstrings]
  constructor
  · rintro ⟨reference, hreference, declared, hresolved, hstring⟩
    exact ⟨declared, ⟨reference, hreference, hresolved⟩, hstring⟩
  · rintro ⟨declared, ⟨reference, hreference, hresolved⟩, hstring⟩
    exact ⟨reference, hreference, declared, hresolved, hstring⟩

/-- A compiled condition holds on the lines on which what it asks for was given. -/
theorem holds_iff_asks (hcompile : scope.compile condition = .ok guard) (line : ParsedLine) :
    guard.holds line = true ↔
      condition.form.Asks (scope.meant condition) {value | value ∈ condition.values} line := by
  obtain ⟨strings, hstrings, rfl⟩ := compile_eq_ok.mp hcompile
  have hof := mem_referencedStrings_iff_isOf hstrings
  cases condition with
  | hasOption options =>
    simp only [Guard.holds, Guard.eval, Test.holds, ParsedLine.hasOption, List.any_eq_true,
      List.contains_eq_mem, decide_eq_true_eq, hof]
    rfl
  | optionIs options values =>
    have hlast : line.optionIs strings values = true ↔
        ∃ last, line.lastOf? strings = some last ∧ ∃ value ∈ last.value, value ∈ values := by
      rw [ParsedLine.optionIs]
      cases line.lastOf? strings with
      | none => simp
      | some last => cases hvalue : last.value <;> simp [hvalue]
    simp only [Guard.holds, Guard.eval, Test.holds, hlast, ParsedLine.lastOf?_eq_some_iff, hof]
    constructor
    · rintro ⟨last, ⟨before, after, hline, hlast, hafter⟩, hvalue⟩
      exact ⟨before, last, after, hline, hlast, hafter, hvalue⟩
    · rintro ⟨before, last, after, hline, hlast, hafter, hvalue⟩
      exact ⟨last, ⟨before, after, hline, hlast, hafter⟩, hvalue⟩

/-- Two conditions of one form that mean the same options and have the same values hold on the
same lines, namely on those on which what they ask for was given. -/
theorem holds_eq_of_meant_eq (hform : first.form = second.form)
    (hfirst : scope.compile first = .ok guard) (hsecond : scope.compile second = .ok other)
    (hmeant : scope.meant first = scope.meant second)
    (hvalues : ∀ value, value ∈ first.values ↔ value ∈ second.values) (line : ParsedLine) :
    guard.holds line = other.holds line ∧
      (guard.holds line = true ↔
        first.form.Asks (scope.meant first) {value | value ∈ first.values} line) := by
  have hsame : {value | value ∈ first.values} = {value | value ∈ second.values} :=
    Set.ext hvalues
  have hasks := holds_iff_asks hfirst line
  refine ⟨?_, hasks⟩
  rw [Bool.eq_iff_iff, hasks, holds_iff_asks hsecond line, hform, hmeant, hsame]

/-- The scope of a subcommand that declares `-q` again and inherits the other option. -/
def modes : Scope :=
  (CommandTree.withHeir
    [CommandOption.ofStrings ["-m", "--mode"] (by decide),
      CommandOption.ofStrings ["-q", "--quick"] (by decide)]
    [CommandOption.ofStrings ["-q", "--quiet"] (by decide)]).scope {} 1

/-- Options in another order and by other strings, and repeated values, make no difference. -/
theorem holds_eq_of_meant_eq_modes :
    let first : Condition := .optionIs ["--mode", "-q"] ["fast", "slow"]
    let second : Condition := .optionIs ["--quiet", "-m", "--mode"] ["slow", "fast", "slow"]
    first.form = second.form ∧
      ∃ guard other, modes.compile first = .ok guard ∧ modes.compile second = .ok other ∧
        modes.meant first = modes.meant second ∧
        (∀ value, value ∈ first.values ↔ value ∈ second.values) ∧
        ∀ line, guard.holds line = other.holds line ∧ (guard.holds line = true ↔
          first.form.Asks (modes.meant first) {value | value ∈ first.values} line) := by
  intro first second
  have hform : first.form = second.form := rfl
  have hmeant : modes.meant first = modes.meant second := by
    have hmode : modes.resolveReference "-m" = modes.resolveReference "--mode" := by cbv
    have hquiet : modes.resolveReference "--quiet" = modes.resolveReference "-q" := by cbv
    ext declared
    simp only [meant, first, second, Condition.options, List.mem_cons, List.not_mem_nil,
      or_false, exists_eq_or_imp, exists_eq_left, hmode, hquiet, Set.mem_ofPred_eq]
    tauto
  have hvalues : ∀ value, value ∈ first.values ↔ value ∈ second.values := by
    intro value
    simp only [first, second, Condition.values, List.mem_cons, List.not_mem_nil]
    tauto
  have hfirst : modes.compile first =
      .ok (.test (.optionIs ["-m", "--mode", "-q", "--quiet"] ["fast", "slow"])) := by cbv
  have hsecond : modes.compile second =
      .ok (.test (.optionIs ["-q", "--quiet", "-m", "--mode"] ["slow", "fast", "slow"])) := by
    cbv
  exact ⟨hform, _, _, hfirst, hsecond, hmeant, hvalues,
    holds_eq_of_meant_eq hform hfirst hsecond hmeant hvalues⟩

end Scope
end ShellCompletion
