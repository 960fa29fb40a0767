import ShellCompletion.HelperFunctions
import ShellCompletion.Proofs.Text.Fresh

/-!
# Helper functions in use

A function that is asked for is in use already or comes into use. The function for a key gets the
name for the key and the body of the first definition of the key; a function that is made up gets
a name that no other function has.
-/

namespace ShellCompletion.Helpers

variable {helpers after : Helpers} {helper : Helper} {key hint body name : String}

/-- The names of the functions in use. -/
def names (helpers : Helpers) : List String :=
  helpers.used.map (·.name)

/-- One more function in use. -/
def add (helpers : Helpers) (helper : Helper) : Helpers :=
  { helpers with used := helpers.used ++ [helper] }

/-- What does not change while functions come into use. -/
def unused (helpers : Helpers) : Helpers :=
  { helpers with used := [] }

/-- The body of the function known in advance by a key. -/
def definition? (helpers : Helpers) (key : String) : Option String :=
  (helpers.available.find? (·.1 == key)).map (·.2)

/-- The names of the functions in use and of one more. -/
@[simp] theorem names_add (helpers : Helpers) (helper : Helper) :
    (helpers.add helper).names = helpers.names ++ [helper.name] := by
  simp [names, add]

/-- A key has a body if it is one of those known in advance. -/
theorem exists_definition?_iff :
    (∃ body, helpers.definition? key = some body) ↔ key ∈ helpers.available.map (·.1) := by
  rw [← Option.isSome_iff_exists, definition?, Option.isSome_map, List.find?_isSome]
  simp

/-! ## Functions for keys -/

/-- A function in use is found under its key. -/
theorem use_of_find? (hfound : helpers.used.find? (·.key == key) = some helper) :
    helpers.use key = (some helper.name, helpers) := by
  rw [use, hfound]

/-- A function comes into use under the name for its key. -/
theorem use_of_definition? (hfree : ∀ helper ∈ helpers.used, helper.key ≠ key)
    (hbody : helpers.definition? key = some body) :
    helpers.use key =
      (some (helpers.nameFor key), helpers.add ⟨key, helpers.nameFor key, body⟩) := by
  obtain ⟨entry, hentry, rfl⟩ := Option.map_eq_some_iff.mp hbody
  have hnone : helpers.used.find? (·.key == key) = none := by simpa using hfree
  rw [use, hnone, hentry]
  rfl

/-- There is no function for a key that is not known. -/
theorem use_of_unknown (hfree : ∀ helper ∈ helpers.used, helper.key ≠ key)
    (hunknown : helpers.definition? key = none) : helpers.use key = (none, helpers) := by
  have hnone : helpers.used.find? (·.key == key) = none := by simpa using hfree
  rw [use, hnone, Option.map_eq_none_iff.mp hunknown]

/-- A function that is asked for by a key is found under the key, or comes into use with the body
of the key under the name for the key. -/
theorem use_cases (huse : helpers.use key = (some name, after)) :
    (after = helpers ∧
      ∃ helper, helpers.used.find? (·.key == key) = some helper ∧ helper.name = name) ∨
      (∀ helper ∈ helpers.used, helper.key ≠ key) ∧ name = helpers.nameFor key ∧
        ∃ body, helpers.definition? key = some body ∧ after = helpers.add ⟨key, name, body⟩ := by
  cases hfind : helpers.used.find? (·.key == key) with
  | some helper =>
    rw [use_of_find? hfind] at huse
    cases huse
    exact .inl ⟨rfl, helper, rfl, rfl⟩
  | none =>
    have hfree : ∀ helper ∈ helpers.used, helper.key ≠ key := by simpa using hfind
    cases hdefinition : helpers.definition? key with
    | none =>
      rw [use_of_unknown hfree hdefinition] at huse
      cases huse
    | some body =>
      rw [use_of_definition? hfree hdefinition] at huse
      cases huse
      exact .inr ⟨hfree, rfl, body, rfl, rfl⟩

/-- Asking for a function changes nothing if there is none. -/
theorem eq_of_use_eq_none (huse : helpers.use key = (none, after)) : after = helpers := by
  rw [use] at huse
  split at huse
  · cases huse
  · split at huse <;> cases huse
    rfl

/-- A function known in advance can be used. -/
theorem exists_use (hkey : key ∈ helpers.available.map (·.1)) :
    ∃ name, (helpers.use key).1 = some name := by
  obtain ⟨body, hbody⟩ := exists_definition?_iff.mpr hkey
  cases hfind : helpers.used.find? (·.key == key) with
  | some helper => exact ⟨helper.name, by rw [use_of_find? hfind]⟩
  | none => exact ⟨_, by rw [use_of_definition? (by simpa using hfind) hbody]⟩

/-- A name for a key begins with that for another one if the key does. -/
theorem nameFor_prefix_iff {other : String} :
    (helpers.nameFor key).toList <+: (helpers.nameFor other).toList ↔
      key.toList <+: other.toList := by
  rw [nameFor, nameFor, String.toList_append, String.toList_append (s := helpers.start ++ "_")]
  exact List.prefix_append_right_inj _

/-- Different keys make different names. -/
theorem nameFor_injective (helpers : Helpers) : Function.Injective helpers.nameFor := by
  intro key other hsame
  simpa [nameFor] using hsame

/-! ## Functions that are made up -/

/-- A function that is made up has the body of one in use, or comes into use under a name from its
hint that no other function has. -/
theorem generate_cases (hgenerate : helpers.generate hint body = (name, after)) :
    (after = helpers ∧ ∃ helper ∈ helpers.used, helper.name = name ∧
      helper.body = Text.trim body) ∨
      name = Text.fresh helpers.names (helpers.nameFor (Text.identifier hint)) ∧
        after = helpers.add ⟨name, name, Text.trim body⟩ := by
  rw [generate] at hgenerate
  split at hgenerate
  · rename_i helper hfind
    cases hgenerate
    have hbody := List.find?_some hfind
    exact .inl ⟨rfl, helper, List.mem_of_find?_eq_some hfind, rfl, by simpa using hbody⟩
  · cases hgenerate
    exact .inr ⟨rfl, rfl⟩

end ShellCompletion.Helpers
