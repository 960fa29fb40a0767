import ShellCompletion.Proofs.Script.Emit

/-!
# States while a script is written

Whatever was written of a script, the helper functions that it knows in advance are the same as
at first, and all functions in use have names that are made of characters for names.
-/

namespace ShellCompletion

variable {initial helpers after : Helpers} {α : Type} {key hint body name : String}

namespace Helpers

/-- All names are made of characters for names. -/
structure AreNames (helpers : Helpers) : Prop where
  /-- The beginning of names. -/
  start : ∀ c ∈ helpers.start.toList, Text.isNameChar c = true
  /-- The keys of the functions known in advance. -/
  keys : ∀ key ∈ helpers.available.map (·.1), ∀ c ∈ key.toList, Text.isNameChar c = true
  /-- The names of the functions in use. -/
  names : ∀ name ∈ helpers.names, ∀ c ∈ name.toList, Text.isNameChar c = true

namespace AreNames

/-- The name for a key is made of characters for names if the key is. -/
theorem nameFor (hnames : helpers.AreNames)
    (hkey : ∀ c ∈ key.toList, Text.isNameChar c = true) :
    ∀ c ∈ (helpers.nameFor key).toList, Text.isNameChar c = true := by
  intro c hc
  rw [Helpers.nameFor, String.toList_append, String.toList_append, List.mem_append,
    List.mem_append] at hc
  rcases hc with (hc | hc) | hc
  · exact hnames.start c hc
  · rw [List.mem_singleton.mp hc]
    rfl
  · exact hkey c hc

/-- One more function comes into use. -/
theorem add (hnames : helpers.AreNames) {helper : Helper}
    (hhelper : ∀ c ∈ helper.name.toList, Text.isNameChar c = true) :
    (helpers.add helper).AreNames where
  start := hnames.start
  keys := hnames.keys
  names := by
    rw [names_add]
    exact List.forall_mem_append.mpr ⟨hnames.names, List.forall_mem_singleton.mpr hhelper⟩

/-- Using a function keeps names. -/
theorem use (hnames : helpers.AreNames) (huse : helpers.use key = (some name, after)) :
    after.AreNames ∧ name ∈ after.names := by
  rcases use_cases huse with ⟨rfl, helper, hfound, rfl⟩ | ⟨-, rfl, body, hbody, rfl⟩
  · exact ⟨hnames, List.mem_map_of_mem (List.mem_of_find?_eq_some hfound)⟩
  · have hkey := exists_definition?_iff.mp ⟨body, hbody⟩
    exact ⟨hnames.add (hnames.nameFor (hnames.keys key hkey)), by simp⟩

/-- Making a function up keeps names. -/
theorem generate (hnames : helpers.AreNames)
    (hgenerate : helpers.generate hint body = (name, after)) :
    after.AreNames ∧ name ∈ after.names := by
  rcases generate_cases hgenerate with ⟨rfl, helper, hmem, rfl, -⟩ | ⟨rfl, rfl⟩
  · exact ⟨hnames, List.mem_map_of_mem hmem⟩
  · exact ⟨hnames.add (Text.isNameChar_of_mem_fresh
      (hnames.nameFor fun c => Text.isNameChar_of_mem_identifier)), by simp⟩

end AreNames
end Helpers

namespace Emit

/-- The states in which writing a script can be. -/
inductive Reached (initial : Helpers) : EmitState → Prop where
  /-- No helper function is in use at first. -/
  | start (warnings : List Warning) : Reached initial { helpers := initial, warnings }
  /-- A helper function known in advance is called. -/
  | helper {state reached : EmitState} {shell : Shell} {key name : String}
    (hstate : Reached initial state) (hrun : helper shell key state = .ok name reached) :
    Reached initial reached
  /-- A helper function is made up. -/
  | generated {state reached : EmitState} {hint body name : String}
    (hstate : Reached initial state) (hrun : generated hint body state = .ok name reached) :
    Reached initial reached
  /-- There is a warning. -/
  | warn {state reached : EmitState} {warning : Warning}
    (hstate : Reached initial state) (hrun : warn warning state = .ok () reached) :
    Reached initial reached

/-- A call that succeeds is one of a function that can be used. -/
theorem use_of_helper {shell : Shell} {state reached : EmitState}
    (hrun : helper shell key state = .ok name reached) :
    state.helpers.use key = (some name, reached.helpers) := by
  rcases huse : state.helpers.use key with ⟨_ | found, after⟩
  · unfold helper at hrun
    change EStateM.bind (fun state => .ok state state) _ state = _ at hrun
    simp only [EStateM.bind, huse] at hrun
    cases hrun
  · rw [helper_eq_ok shell huse] at hrun
    cases hrun
    rfl

/-- A function that is made up is in use in the end. -/
theorem generate_of_generated {state reached : EmitState}
    (hrun : generated hint body state = .ok name reached) :
    state.helpers.generate hint body = (name, reached.helpers) := by
  rcases hgenerate : state.helpers.generate hint body with ⟨found, after⟩
  rw [generated_eq_ok hgenerate] at hrun
  cases hrun
  rfl

namespace Reached

variable {state : EmitState}

/-- What was known in advance does not change. -/
theorem unused_eq (hstate : Reached initial state) : state.helpers.unused = initial.unused := by
  induction hstate with
  | start warnings => rfl
  | helper _ hrun ih =>
    rcases Helpers.use_cases (use_of_helper hrun) with ⟨hsame, -⟩ | ⟨-, -, body, -, hadd⟩
    · rw [hsame, ih]
    · rw [hadd, ← ih]
      rfl
  | generated _ hrun ih =>
    rcases Helpers.generate_cases (generate_of_generated hrun) with ⟨hsame, -⟩ | ⟨-, hadd⟩
    · rw [hsame, ih]
    · rw [hadd, ← ih]
      rfl
  | warn _ hrun ih =>
    cases hrun
    exact ih

/-- Names stay names. -/
theorem areNames (hstate : Reached initial state) (hinitial : initial.AreNames) :
    state.helpers.AreNames := by
  induction hstate with
  | start warnings => exact hinitial
  | helper _ hrun ih => exact (ih.use (use_of_helper hrun)).1
  | generated _ hrun ih => exact (ih.generate (generate_of_generated hrun)).1
  | warn _ hrun ih =>
    cases hrun
    exact ih

end Reached

/-! ## Steps -/

/-- Whenever the steps succeed in a state in which writing a script can be, they end in one. -/
def Keeps (initial : Helpers) (steps : Emit α) : Prop :=
  ∀ state value after, Reached initial state → steps state = .ok value after →
    Reached initial after

namespace Keeps

variable {β : Type}

/-- A value changes nothing. -/
theorem pure (value : α) : Keeps initial (pure value) := by
  intro state result after hstate hrun
  cases hrun
  exact hstate

/-- An attempt changes nothing. -/
theorem ofExcept (attempt : Except Error α) : Keeps initial (ofExcept attempt) := by
  intro state result after hstate hrun
  cases attempt with
  | ok value =>
    cases hrun
    exact hstate
  | error error => cases hrun

/-- Steps in a row keep what each of them keeps. -/
theorem bind {first : Emit α} {second : α → Emit β} (hfirst : Keeps initial first)
    (hsecond : ∀ value, Keeps initial (second value)) : Keeps initial (first >>= second) := by
  intro state result after hstate hrun
  obtain ⟨value, between, hvalue, hrest⟩ := bind_apply_eq_ok.mp hrun
  exact hsecond value between result after (hfirst state value between hstate hvalue) hrest

/-- Steps for all items keep what those for each item keep. -/
theorem mapM {step : α → Emit β} (hstep : ∀ item, Keeps initial (step item)) (items : List α) :
    Keeps initial (items.mapM step) := by
  induction items with
  | nil => exact pure []
  | cons item rest ih =>
    rw [List.mapM_cons]
    exact (hstep item).bind fun _ => ih.bind fun _ => pure _

/-- A script that was written has reached its last state. -/
theorem reached_of_run {steps : Emit α} {warnings after : List Warning} {value : α}
    {state : EmitState} (hsteps : Keeps initial steps)
    (hrun : run initial steps warnings = .ok (value, state) after) : Reached initial state := by
  rw [run_apply] at hrun
  split at hrun
  · rename_i hend
    cases hrun
    exact hsteps _ _ _ (.start warnings) hend
  · cases hrun

end Keeps
end Emit
end ShellCompletion
