import ShellCompletion.Proofs.Follows
import ShellCompletion.Proofs.HelperFunctions
import ShellCompletion.Script.Emit

/-!
# Steps of writing a script

The helper functions that a script knows in advance stay the same while it is written, and
asking for one of them never fails. So the steps fail for errors of the specification only.
Every function that is called is in use, under a name of its own.
-/

namespace ShellCompletion

variable {initial helpers after : Helpers} {α : Type} {key hint body name : String}

namespace Emit

/-- What is known about helper functions while a script is written. -/
structure Knows (initial : Helpers) (state : EmitState) : Prop where
  /-- What was known in advance. -/
  unused : state.helpers.unused = initial.unused
  /-- All functions in use have different names. -/
  nodup : state.helpers.names.Nodup
  /-- Only the function for a key has the name for the key. -/
  reserved : ∀ helper ∈ state.helpers.used, ∀ key ∈ initial.available.map (·.1),
    helper.name = initial.nameFor key → helper.key = key
  /-- The functions in use are those that are called. -/
  calls : ∀ name, name ∈ state.calls ↔ name ∈ state.helpers.names

namespace Knows

variable {state : EmitState} {helper : Helper}

/-- Nothing is in use at first. -/
theorem start (hused : initial.used = []) (warnings : List Warning) :
    Knows initial { helpers := initial, warnings } where
  unused := rfl
  nodup := by simp [Helpers.names, hused]
  reserved := by simp [hused]
  calls := by simp [Helpers.names, hused]

/-- The names for keys do not change. -/
theorem nameFor_eq (hstate : Knows initial state) (key : String) :
    state.helpers.nameFor key = initial.nameFor key := by
  have hstart : state.helpers.start = initial.start := congrArg (·.start) hstate.unused
  rw [Helpers.nameFor, Helpers.nameFor, hstart]

/-- A function that is in use is called. -/
theorem call (hstate : Knows initial state) (hname : name ∈ state.helpers.names) :
    Knows initial { state with calls := state.calls ++ [name] } where
  unused := hstate.unused
  nodup := hstate.nodup
  reserved := hstate.reserved
  calls other := by
    rw [List.mem_append, hstate.calls other, List.mem_singleton]
    exact or_iff_left_of_imp fun hsame => hsame ▸ hname

/-- A function comes into use and is called. -/
theorem add (hstate : Knows initial state) (hfresh : helper.name ∉ state.helpers.names)
    (hreserved : ∀ key ∈ initial.available.map (·.1),
      helper.name = initial.nameFor key → helper.key = key) :
    Knows initial { state with
      helpers := state.helpers.add helper, calls := state.calls ++ [helper.name] } where
  unused := hstate.unused
  nodup := by
    rw [Helpers.names_add]
    exact List.nodup_append.mpr ⟨hstate.nodup, List.nodup_singleton _, by
      rintro other hother _ hname rfl
      exact hfresh (List.mem_singleton.mp hname ▸ hother)⟩
  reserved := List.forall_mem_append.mpr
    ⟨hstate.reserved, List.forall_mem_singleton.mpr hreserved⟩
  calls other := by
    rw [Helpers.names_add, List.mem_append, List.mem_append, hstate.calls other]

end Knows

/-- An attempt in a step is its own check. -/
theorem follows_ofExcept (attempt : Except Error α) :
    Follows (Knows initial) (ofExcept attempt) (discard attempt) := by
  intro state hstate
  cases attempt with
  | ok value => exact ⟨rfl, hstate⟩
  | error error => rfl

/-- Warnings never fail. -/
theorem follows_warn (warning : Warning) : Follows (Knows initial) (warn warning) (.ok ()) :=
  fun _ hstate => ⟨rfl, hstate.unused, hstate.nodup, hstate.reserved, hstate.calls⟩

/-- A function that can be used is in use from then on. -/
theorem helper_eq_ok (shell : Shell) {state : EmitState}
    (huse : state.helpers.use key = (some name, after)) : helper shell key state =
      .ok name { state with helpers := after, calls := state.calls ++ [name] } := by
  unfold helper
  change EStateM.bind (fun state => .ok state state) _ state = _
  simp only [EStateM.bind, huse]
  rfl

/-- Asking for a function known in advance never fails. -/
theorem follows_helper (shell : Shell) (hkey : key ∈ initial.available.map (·.1)) :
    Follows (Knows initial) (helper shell key) (.ok ()) := by
  intro state hstate
  have havailable : state.helpers.available = initial.available :=
    congrArg (·.available) hstate.unused
  obtain ⟨name, hname⟩ := Helpers.exists_use (havailable ▸ hkey)
  obtain ⟨after, huse⟩ : ∃ after, state.helpers.use key = (some name, after) :=
    ⟨_, Prod.ext hname rfl⟩
  rw [helper_eq_ok shell huse]
  rcases Helpers.use_cases huse with ⟨rfl, helper, hfound, rfl⟩ | ⟨hfree, rfl, body, -, rfl⟩
  · exact ⟨rfl, hstate.call (List.mem_map_of_mem (List.mem_of_find?_eq_some hfound))⟩
  · refine ⟨rfl, hstate.add ?_ fun other hother hsame => ?_⟩
    · intro hmem
      obtain ⟨other, hother, hsame⟩ := List.mem_map.mp hmem
      exact hfree other hother
        (hstate.reserved other hother key hkey (hsame.trans (hstate.nameFor_eq key)))
    · exact initial.nameFor_injective ((hstate.nameFor_eq key).symm.trans hsame)

/-- A function that is made up is in use from then on. -/
theorem generated_eq_ok {state : EmitState}
    (hgenerate : state.helpers.generate hint body = (name, after)) : generated hint body state =
      .ok name { state with helpers := after, calls := state.calls ++ [name] } := by
  unfold generated
  change EStateM.bind (fun state => .ok state state) _ state = _
  simp only [EStateM.bind, hgenerate]
  rfl

/-- Making a function up never fails, if its name cannot be that for a key. -/
theorem follows_generated {keys : List String} (body : String)
    (hkeys : initial.available.map (·.1) = keys)
    (hhint : ∀ key ∈ keys, ¬ (Text.identifier hint).toList <+: key.toList) :
    Follows (Knows initial) (generated hint body) (.ok ()) := by
  intro state hstate
  rcases hgenerate : state.helpers.generate hint body with ⟨name, after⟩
  rw [generated_eq_ok hgenerate]
  rcases Helpers.generate_cases hgenerate with ⟨rfl, helper, hmem, rfl, -⟩ | ⟨rfl, rfl⟩
  · exact ⟨rfl, hstate.call (List.mem_map_of_mem hmem)⟩
  · refine ⟨rfl, hstate.add (Text.fresh_notMem _ _) fun key hkey hsame => ?_⟩
    have hbegins := Text.prefix_fresh state.helpers.names
      (state.helpers.nameFor (Text.identifier hint))
    rw [show Text.fresh _ _ = _ from hsame, hstate.nameFor_eq,
      Helpers.nameFor_prefix_iff] at hbegins
    exact absurd hbegins (hhint key (hkeys ▸ hkey))

/-- Writing a script takes the warnings over, and gives them back whether it succeeds or
not. -/
theorem run_apply (helpers : Helpers) (steps : Emit α) (warnings : List Warning) :
    run helpers steps warnings = match steps { helpers, warnings } with
      | .ok value state => .ok (value, state) state.warnings
      | .error error state => .error error state.warnings := by
  unfold run
  change EStateM.bind (fun warnings => .ok warnings warnings) _ warnings = _
  simp only [EStateM.bind, EStateM.run]
  cases steps { helpers, warnings } <;> rfl

/-- Writing a script follows the check that its steps follow. -/
theorem follows_run {steps : Emit α} {check : Except Error Unit} (hused : initial.used = [])
    (hsteps : Follows (Knows initial) steps check) :
    Follows (fun _ => True) (run initial steps) check := by
  intro warnings _
  have hrun := hsteps _ (Knows.start hused warnings)
  rw [run_apply]
  cases hresult : steps { helpers := initial, warnings } with
  | ok value state =>
    rw [hresult] at hrun
    exact ⟨hrun.1, trivial⟩
  | error error state =>
    rw [hresult] at hrun
    exact hrun

end Emit
end ShellCompletion
