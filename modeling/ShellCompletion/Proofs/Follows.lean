import ShellCompletion.Proofs.Attempts
import ShellCompletion.Warning

/-!
# Computations that follow a check

A computation with a state may do a lot and still fail for few reasons. It follows a check
if the check says whether it succeeds, and with which error it fails otherwise. What it may
count on in the state is an invariant, which it keeps. What it gives is a matter of its own.
-/

namespace ShellCompletion

variable {ε σ α β : Type} {invariant : σ → Prop} {check other : Except ε Unit}

/-- From every state with the invariant, the computation keeps it and succeeds if the check
does, and fails with the error of the check otherwise. -/
def Follows (invariant : σ → Prop) (step : EStateM ε σ α) (check : Except ε Unit) : Prop :=
  ∀ state, invariant state →
    match step state with
    | .ok _ after => check = .ok () ∧ invariant after
    | .error error _ => check = .error error

/-- Giving a value never fails. -/
theorem follows_pure (value : α) :
    Follows invariant (pure value : EStateM ε σ α) (.ok ()) :=
  fun _ hstate => ⟨rfl, hstate⟩

/-- An attempt that only checks something is its own check. -/
theorem follows_ofExcept (attempt : Except Error Unit) :
    Follows (fun _ : List Warning => True) (Logged.ofExcept attempt) attempt := by
  intro state _
  cases attempt with
  | ok value => exact ⟨rfl, trivial⟩
  | error error => rfl

namespace Follows

/-- Two computations in a row follow both checks in a row. -/
theorem bind {first : EStateM ε σ α} {second : α → EStateM ε σ β}
    (hfirst : Follows invariant first check)
    (hsecond : ∀ value, Follows invariant (second value) other) :
    Follows invariant (first >>= second) (check >>= fun _ => other) := by
  intro state hstate
  have hrun := hfirst state hstate
  change match EStateM.bind first second state with
    | .ok _ after => _
    | .error error _ => _
  rw [EStateM.bind]
  split at hrun
  · rename_i value after hvalue
    rw [hvalue, hrun.1]
    exact hsecond value after hrun.2
  · rename_i error after herror
    rw [herror, hrun]
    rfl

/-- What comes after a computation that never fails decides. -/
theorem after {first : EStateM ε σ α} {second : α → EStateM ε σ β}
    (hfirst : Follows invariant first (.ok ()))
    (hsecond : ∀ value, Follows invariant (second value) check) :
    Follows invariant (first >>= second) check :=
  hfirst.bind hsecond

/-- What comes before computations that never fail decides. -/
theorem before {first : EStateM ε σ α} {second : α → EStateM ε σ β}
    (hfirst : Follows invariant first check)
    (hsecond : ∀ value, Follows invariant (second value) (.ok ())) :
    Follows invariant (first >>= second) check := by
  have hbind := hfirst.bind hsecond
  rwa [show (check >>= fun _ => .ok ()) = check by cases check <;> rfl] at hbind

/-- Computations without results for all items follow the checks of all items. -/
theorem forM {items : List α} {step : α → EStateM ε σ Unit} {checks : α → Except ε Unit}
    (hitems : ∀ item ∈ items, Follows invariant (step item) (checks item)) :
    Follows invariant (items.forM step) (items.forM checks) := by
  induction items with
  | nil => exact follows_pure ()
  | cons item rest ih =>
    obtain ⟨hitem, hrest⟩ := List.forall_mem_cons.mp hitems
    exact hitem.bind fun _ => ih hrest

/-- Computations for all items follow the checks of all items. -/
theorem mapM {items : List α} {step : α → EStateM ε σ β} {checks : α → Except ε Unit}
    (hitems : ∀ item ∈ items, Follows invariant (step item) (checks item)) :
    Follows invariant (items.mapM step) (items.forM checks) := by
  induction items with
  | nil => exact follows_pure []
  | cons item rest ih =>
    obtain ⟨hitem, hrest⟩ := List.forall_mem_cons.mp hitems
    rw [List.mapM_cons]
    exact hitem.bind fun result => (ih hrest).before fun results => follows_pure _

/-- Computations that pass a value on follow the checks of all items. -/
theorem foldlM {items : List α} {step : β → α → EStateM ε σ β} {checks : α → Except ε Unit}
    (hitems : ∀ item ∈ items, ∀ value, Follows invariant (step value item) (checks item))
    (start : β) : Follows invariant (items.foldlM step start) (items.forM checks) := by
  induction items generalizing start with
  | nil => exact follows_pure start
  | cons item rest ih =>
    obtain ⟨hitem, hrest⟩ := List.forall_mem_cons.mp hitems
    rw [List.foldlM_cons]
    exact (hitem start).bind fun value => ih hrest value

/-- What follows checks that all succeed never fails. -/
theorem all_ok {items : List α} {step : EStateM ε σ β}
    (hstep : Follows invariant step (items.forM fun _ => .ok ())) :
    Follows invariant step (.ok ()) := by
  rwa [forM_eq_ok.mpr fun _ _ => rfl] at hstep

end Follows

/-! ## Results -/

/-- Two computations in a row succeed if the first one does, and the second one from the state
in which the first one ends. -/
theorem bind_apply_eq_ok {first : EStateM ε σ α} {second : α → EStateM ε σ β} {state after : σ}
    {result : β} : (first >>= second) state = .ok result after ↔ ∃ value between,
      first state = .ok value between ∧ second value between = .ok result after := by
  change EStateM.bind first second state = _ ↔ _
  rw [EStateM.bind]
  cases first state with
  | ok value between => simp
  | error error between => simp

/-- An attempt within a computation succeeds if it does on its own, and changes no state. -/
theorem Logged.ofExcept_apply_eq_ok {attempt : Except Error α} {before after : List Warning}
    {value : α} : Logged.ofExcept attempt before = .ok value after ↔
      attempt = .ok value ∧ before = after := by
  cases attempt with
  | ok result =>
    change EStateM.Result.ok result before = _ ↔ _
    simp
  | error error =>
    change EStateM.Result.error error before = _ ↔ _
    simp

/-- What holds of no items and the start, and what every step keeps when it adds its item, holds
of all items and the result. -/
theorem foldlM_apply_invariant {items : List α} {step : β → α → EStateM ε σ β}
    (invariant : List α → β → Prop) {start result : β} {state last : σ}
    (hstep : ∀ earlier item value between next after, invariant earlier value →
      step value item between = .ok next after → invariant (earlier ++ [item]) next)
    (hstart : invariant [] start) (hrun : items.foldlM step start state = .ok result last) :
    invariant items result := by
  suffices hall : ∀ earlier, invariant earlier start → invariant (earlier ++ items) result from
    hall [] hstart
  clear hstart
  induction items generalizing start state with
  | nil =>
    cases hrun
    intro earlier hearlier
    rwa [List.append_nil]
  | cons item rest ih =>
    rw [List.foldlM_cons] at hrun
    obtain ⟨next, between, hitem, hrest⟩ := bind_apply_eq_ok.mp hrun
    intro earlier hearlier
    rw [List.append_cons]
    exact ih hrest (earlier ++ [item]) (hstep earlier item start state next between hearlier hitem)

/-- Whatever the computation gives has a property. -/
def Gives (step : EStateM ε σ α) (property : α → Prop) : Prop :=
  ∀ state value after, step state = .ok value after → property value

namespace Gives

variable {property : α → Prop} {other : β → Prop}

/-- A value is given as it is. -/
theorem pure {value : α} (hvalue : property value) :
    Gives (pure value : EStateM ε σ α) property := by
  intro state result after hrun
  cases hrun
  exact hvalue

/-- What comes last gives the result. -/
theorem bind {first : EStateM ε σ α} {second : α → EStateM ε σ β}
    (hsecond : ∀ value, Gives (second value) other) : Gives (first >>= second) other := by
  intro state result after hrun
  obtain ⟨value, between, -, hrest⟩ := bind_apply_eq_ok.mp hrun
  exact hsecond value between result after hrest

/-- Computations for all items give a result for each of them. -/
theorem mapM {items : List α} {step : α → EStateM ε σ β} {relation : α → β → Prop}
    (hitems : ∀ item ∈ items, Gives (step item) (relation item)) :
    Gives (items.mapM step) (List.Forall₂ relation items) := by
  induction items with
  | nil => exact pure .nil
  | cons item rest ih =>
    obtain ⟨hitem, hrest⟩ := List.forall_mem_cons.mp hitems
    intro state results after hrun
    rw [List.mapM_cons] at hrun
    obtain ⟨first, between, hfirst, hrun⟩ := bind_apply_eq_ok.mp hrun
    obtain ⟨others, last, hothers, hresults⟩ := bind_apply_eq_ok.mp hrun
    cases hresults
    exact .cons (hitem _ _ _ hfirst) (ih hrest _ _ _ hothers)

end Gives
end ShellCompletion
