import ShellCompletion.Proofs.Script.Emit

/-!
# Computations in step

Two computations go in step if they do the same to every state and fail for the same reasons.
Only what they give may differ, in a way that a relation describes.
-/

namespace ShellCompletion

variable {ε σ α α' β β' γ : Type} {relation : α → α' → Prop} {other : β → β' → Prop}

/-- Two computations have come to the same end, up to related results. -/
inductive SameEnd (relation : α → α' → Prop) :
    EStateM.Result ε σ α → EStateM.Result ε σ α' → Prop where
  /-- Both have reached a state with related results. -/
  | ok {value : α} {value' : α'} {state : σ} (hrelated : relation value value') :
    SameEnd relation (.ok value state) (.ok value' state)
  /-- Both have failed in a state with an error. -/
  | error {error : ε} {state : σ} : SameEnd relation (.error error state) (.error error state)

/-- From every state the computations come to the same end. -/
def InStep (relation : α → α' → Prop) (first : EStateM ε σ α) (second : EStateM ε σ α') :
    Prop :=
  ∀ state, SameEnd relation (first state) (second state)

/-- Computations that give related values go in step. -/
theorem inStep_pure {value : α} {value' : α'} (hvalue : relation value value') :
    InStep relation (pure value : EStateM ε σ α) (pure value') :=
  fun _ => .ok hvalue

/-- A computation goes in step with itself. -/
theorem inStep_refl (step : EStateM ε σ α) : InStep Eq step step := by
  intro state
  cases step state with
  | ok value after => exact .ok rfl
  | error error after => exact .error

namespace InStep

/-- Computations in a row go in step if they do one after the other. -/
theorem bind {first : EStateM ε σ α} {first' : EStateM ε σ α'} {second : α → EStateM ε σ β}
    {second' : α' → EStateM ε σ β'} (hfirst : InStep relation first first')
    (hsecond : ∀ value value', relation value value' →
      InStep other (second value) (second' value')) :
    InStep other (first >>= second) (first' >>= second') := by
  intro state
  have hrun := hfirst state
  change SameEnd other (EStateM.bind first second state) (EStateM.bind first' second' state)
  rw [EStateM.bind, EStateM.bind]
  generalize first state = reached, first' state = reached' at hrun ⊢
  cases hrun with
  | ok hrelated => exact hsecond _ _ hrelated _
  | error => exact .error

/-- What comes after the same computation may use its result. -/
theorem after {first : EStateM ε σ γ} {second : γ → EStateM ε σ β}
    {second' : γ → EStateM ε σ β'}
    (hsecond : ∀ value, InStep other (second value) (second' value)) :
    InStep other (first >>= second) (first >>= second') := by
  refine (inStep_refl first).bind fun value value' hsame => ?_
  rw [← hsame]
  exact hsecond value

/-- Computations that pass a value on go in step if they do for every item. -/
theorem foldlM {items : List γ} {step : α → γ → EStateM ε σ α}
    {step' : α' → γ → EStateM ε σ α'}
    (hitems : ∀ item ∈ items, ∀ value value', relation value value' →
      InStep relation (step value item) (step' value' item))
    {start : α} {start' : α'} (hstart : relation start start') :
    InStep relation (items.foldlM step start) (items.foldlM step' start') := by
  induction items generalizing start start' with
  | nil => exact inStep_pure hstart
  | cons item rest ih =>
    obtain ⟨hitem, hrest⟩ := List.forall_mem_cons.mp hitems
    rw [List.foldlM_cons, List.foldlM_cons]
    exact (hitem start start' hstart).bind fun value value' hvalue => ih hrest hvalue

/-- Scripts whose steps go in step do, and the same has come up in the end. -/
theorem run {steps : Emit α} {steps' : Emit α'} (hsteps : InStep relation steps steps')
    (helpers : Helpers) : InStep (fun first second => relation first.1 second.1 ∧
      first.2 = second.2) (Emit.run helpers steps) (Emit.run helpers steps') := by
  intro warnings
  have hrun := hsteps { helpers, warnings }
  rw [Emit.run_apply, Emit.run_apply]
  generalize steps { helpers, warnings } = reached, steps' { helpers, warnings } = reached'
    at hrun ⊢
  cases hrun with
  | ok hrelated => exact .ok ⟨hrelated, rfl⟩
  | error => exact .error

/-- Of two computations in step both have results, or neither. -/
theorem outcome {first : Logged α} {second : Logged α'} (hstep : InStep relation first second) :
    (∃ value value', first.outcome.2 = .ok value ∧ second.outcome.2 = .ok value' ∧
      relation value value') ∨
    ∃ error, first.outcome.2 = .error error ∧ second.outcome.2 = .error error := by
  have hrun := hstep []
  rw [Logged.outcome, Logged.outcome, EStateM.run, EStateM.run]
  generalize first [] = reached, second [] = reached' at hrun ⊢
  cases hrun with
  | ok hrelated => exact .inl ⟨_, _, rfl, rfl, hrelated⟩
  | error => exact .inr ⟨_, rfl, rfl⟩

end InStep
end ShellCompletion
