import Mathlib.Data.List.Forall2

/-!
# Attempts in a row

Much of the library tries something for one item after the other and stops at the first
failure. These lemmas say when such a run succeeds and what it keeps.
-/

namespace ShellCompletion

variable {ε α β : Type}

/-- Two attempts in a row succeed if both do. -/
theorem bind_eq_ok {first : Except ε α} {next : α → Except ε β} {result : β} :
    (first >>= next) = .ok result ↔ ∃ value, first = .ok value ∧ next value = .ok result := by
  cases first with
  | error error => simp [bind, Except.bind]
  | ok value => simp [bind, Except.bind]

/-- A check and an attempt after it succeed if both do. -/
theorem check_bind_eq_ok {check : Except ε Unit} {next : Except ε β} {result : β} :
    (check >>= fun _ => next) = .ok result ↔ check = .ok () ∧ next = .ok result := by
  cases check with
  | error error => simp [bind, Except.bind]
  | ok _ => simp [bind, Except.bind]

/-- Two attempts in a row fail if one of them does. -/
theorem bind_eq_error {first : Except ε α} {next : α → Except ε β} {error : ε} :
    (first >>= next) = .error error ↔
      first = .error error ∨ ∃ value, first = .ok value ∧ next value = .error error := by
  cases first with
  | error other => simp [bind, Except.bind]
  | ok value => simp [bind, Except.bind]

/-- An attempt whose result is changed succeeds if the attempt does. -/
theorem map_eq_ok {attempt : Except ε α} {change : α → β} {result : β} :
    attempt.map change = .ok result ↔ ∃ value, attempt = .ok value ∧ change value = result := by
  cases attempt with
  | error error => simp [Except.map]
  | ok value => simp [Except.map]

/-- An attempt that has a result succeeds with it. -/
theorem eq_ok_of_toOption {attempt : Except ε α} {value : α}
    (hresult : attempt.toOption = some value) : attempt = .ok value := by
  cases attempt with
  | error error => cases hresult
  | ok result => exact congrArg Except.ok (Option.some.inj hresult)

/-- An attempt that only checks something has no result to drop. -/
theorem discard_unit (attempt : Except ε Unit) : discard attempt = attempt := by
  cases attempt <;> rfl

/-- An attempt whose result does not matter succeeds if it has one. -/
theorem discard_eq_ok {attempt : Except ε α} :
    discard attempt = .ok () ↔ ∃ result, attempt = .ok result := by
  cases attempt with
  | error error => exact ⟨nofun, nofun⟩
  | ok result => exact ⟨fun _ => ⟨result, rfl⟩, fun _ => rfl⟩

/-- An attempt whose result does not matter fails if the attempt does. -/
theorem discard_eq_error {attempt : Except ε α} {error : ε} :
    discard attempt = .error error ↔ attempt = .error error := by
  cases attempt with
  | error other =>
    change Except.error other = Except.error error ↔ _
    rw [Except.error.injEq, Except.error.injEq]
  | ok result => exact ⟨nofun, nofun⟩

/-- Attempts on all items succeed if each of them does. -/
theorem mapM_eq_ok {attempt : α → Except ε β} {items : List α} {results : List β} :
    items.mapM attempt = .ok results ↔
      List.Forall₂ (fun item result => attempt item = .ok result) items results := by
  induction items generalizing results with
  | nil => simp [pure, Except.pure, eq_comm]
  | cons item rest ih =>
    simp only [List.mapM_cons, bind_eq_ok, ih, List.forall₂_cons_left_iff, pure, Except.pure,
      Except.ok.injEq]
    constructor
    · rintro ⟨result, hitem, others, hrest, rfl⟩
      exact ⟨result, others, hitem, hrest, rfl⟩
    · rintro ⟨result, others, hitem, hrest, rfl⟩
      exact ⟨result, hitem, others, hrest, rfl⟩

/-- Attempts on all items succeed with given results if each gives its own. -/
theorem mapM_eq_ok_map {attempt : α → Except ε β} {items : List α} {result : α → β}
    (hitems : ∀ item ∈ items, attempt item = .ok (result item)) :
    items.mapM attempt = .ok (items.map result) := by
  rw [mapM_eq_ok, List.forall₂_map_right_iff, List.forall₂_same]
  exact hitems

/-- Attempts on all items fail for one of them. -/
theorem exists_of_mapM_eq_error {attempt : α → Except ε β} {items : List α} {error : ε}
    (hitems : items.mapM attempt = .error error) : ∃ item ∈ items, attempt item = .error error := by
  induction items with
  | nil => cases hitems
  | cons item rest ih =>
    rw [List.mapM_cons, bind_eq_error] at hitems
    rcases hitems with hitem | ⟨_, _, hrest⟩
    · exact ⟨item, List.mem_cons_self, hitem⟩
    · rcases bind_eq_error.mp hrest with hrest | ⟨_, _, hresult⟩
      · obtain ⟨other, hother, herror⟩ := ih hrest
        exact ⟨other, List.mem_cons_of_mem _ hother, herror⟩
      · cases hresult

/-- The results of attempts on all items are those of the items. -/
theorem mem_mapM {attempt : α → Except ε β} {items : List α} {results : List β} {result : β}
    (hitems : items.mapM attempt = .ok results) :
    result ∈ results ↔ ∃ item ∈ items, attempt item = .ok result := by
  induction mapM_eq_ok.mp hitems with
  | nil => simp
  | @cons item first items results hitem hrest ih =>
    simp only [List.mem_cons, exists_eq_or_imp, ih (mapM_eq_ok.mpr hrest), hitem,
      Except.ok.injEq]
    rw [eq_comm]

/-- Attempts on all items succeed if each of them can. -/
theorem exists_mapM_eq_ok {attempt : α → Except ε β} {items : List α} :
    (∃ results, items.mapM attempt = .ok results) ↔
      ∀ item ∈ items, ∃ result, attempt item = .ok result := by
  induction items with
  | nil => exact ⟨fun _ => List.forall_mem_nil _, fun _ => ⟨[], rfl⟩⟩
  | cons item rest ih =>
    rw [List.forall_mem_cons, ← ih]
    simp only [mapM_eq_ok, List.forall₂_cons_left_iff]
    constructor
    · rintro ⟨-, result, results, hitem, hrest, rfl⟩
      exact ⟨⟨result, hitem⟩, results, hrest⟩
    · rintro ⟨⟨result, hitem⟩, results, hrest⟩
      exact ⟨_, result, results, hitem, hrest, rfl⟩

/-- Runs of attempts that are the same on every item are the same. -/
theorem mapM_congr {attempt other : α → Except ε β} {items : List α}
    (hsame : ∀ item ∈ items, attempt item = other item) :
    items.mapM attempt = items.mapM other := by
  induction items with
  | nil => rfl
  | cons item rest ih =>
    obtain ⟨hitem, hrest⟩ := List.forall_mem_cons.mp hsame
    rw [List.mapM_cons, List.mapM_cons, hitem, ih hrest]

/-- Attempts without results succeed on all items if each of them does. -/
theorem forM_eq_ok {attempt : α → Except ε Unit} {items : List α} :
    items.forM attempt = .ok () ↔ ∀ item ∈ items, attempt item = .ok () := by
  induction items with
  | nil => simp [pure, Except.pure]
  | cons item rest ih =>
    change (attempt item >>= fun _ => rest.forM attempt) = .ok () ↔ _
    rw [check_bind_eq_ok, ih, List.forall_mem_cons]

/-- Attempts without results fail for one of the items. -/
theorem exists_of_forM_eq_error {attempt : α → Except ε Unit} {items : List α} {error : ε}
    (hitems : items.forM attempt = .error error) : ∃ item ∈ items, attempt item = .error error := by
  induction items with
  | nil => cases hitems
  | cons item rest ih =>
    rcases bind_eq_error.mp hitems with hitem | ⟨_, _, hrest⟩
    · exact ⟨item, List.mem_cons_self, hitem⟩
    · obtain ⟨other, hother, herror⟩ := ih hrest
      exact ⟨other, List.mem_cons_of_mem _ hother, herror⟩

/-- A run that reads every item and goes on with what was read succeeds if all items can be read
and the run on what was read succeeds. -/
theorem foldlM_read_eq_ok {σ : Type} {read : α → Except ε β} {next : σ → β → Except ε σ}
    {items : List α} {start result : σ} :
    items.foldlM (fun state item => read item >>= next state) start = .ok result ↔
      ∃ values, items.mapM read = .ok values ∧ values.foldlM next start = .ok result := by
  simp only [mapM_eq_ok]
  induction items generalizing start with
  | nil => simp
  | cons item rest ih =>
    simp only [List.foldlM_cons, bind_eq_ok, ih, List.forall₂_cons_left_iff]
    constructor
    · rintro ⟨state, ⟨value, hitem, hnext⟩, values, hvalues, hrest⟩
      exact ⟨value :: values, ⟨value, values, hitem, hvalues, rfl⟩,
        bind_eq_ok.mpr ⟨state, hnext, hrest⟩⟩
    · rintro ⟨-, ⟨value, values, hitem, hvalues, rfl⟩, hrun⟩
      obtain ⟨state, hnext, hrest⟩ := bind_eq_ok.mp hrun
      exact ⟨state, ⟨value, hitem, hnext⟩, values, hvalues, hrest⟩

/-- What every successful attempt keeps, a successful run of attempts keeps. -/
theorem foldlM_invariant {attempt : β → α → Except ε β} {items : List α} {start result : β}
    (invariant : β → Prop)
    (hattempt : ∀ item ∈ items, ∀ before after,
      invariant before → attempt before item = .ok after → invariant after)
    (hstart : invariant start) (hrun : items.foldlM attempt start = .ok result) :
    invariant result := by
  induction items generalizing start with
  | nil =>
    simp only [List.foldlM_nil, pure, Except.pure, Except.ok.injEq] at hrun
    exact hrun ▸ hstart
  | cons item rest ih =>
    rw [List.foldlM_cons, bind_eq_ok] at hrun
    obtain ⟨after, hitem, hrest⟩ := hrun
    exact ih (fun next hnext => hattempt next (List.mem_cons_of_mem _ hnext))
      (hattempt item List.mem_cons_self start after hstart hitem) hrest

end ShellCompletion
