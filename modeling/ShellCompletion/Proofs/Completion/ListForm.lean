import ShellCompletion.Completion.Encoding
import ShellCompletion.Proofs.Attempts
import ShellCompletion.Proofs.Json.Data

/-!
# Reading list forms that were written

A completion that was read from a list form is written as a list form that reads as the
same completion, also after the list form went through data.
-/

namespace ShellCompletion.Completion

/-- A completion that a list form can express: ranges advance, value lists have a
separator, and described choices are different. -/
def IsExpressible : Completion → Prop
  | range _ _ step => step ≠ 0
  | valueList separator _ => separator ≠ ""
  | choices (.described items) => (items.map (·.1)).Nodup
  | _ => True

/-- A bound of a range is read back from its JSON value. -/
theorem boundOf_int (bound : Int64) : boundOf (.int bound.toInt) = .ok bound := by
  have hleast := Int64.le_toInt bound
  have hgreatest := Int64.toInt_lt bound
  have hsigned : (Number.int bound.toInt).toSigned? = some bound.toInt := by
    have hsize : (maxNegative : Int) = 2 ^ 63 := by decide
    unfold Number.toSigned?
    apply if_pos
    simp only [Bool.and_eq_true, decide_eq_true_eq]
    omega
  simp [boundOf, Json.int, hsigned]

/-- Texts are read back as scalar values. -/
theorem mapM_scalarText_text (values : List String) :
    values.mapM (Json.scalarText ∘ Json.text) = .ok values := by
  have hread : values.mapM (Json.scalarText ∘ Json.text) = .ok (values.map id) :=
    mapM_eq_ok_map fun _ _ => rfl
  rwa [List.map_id] at hread

/-- Choices that repeat no described value are read back from the parameter of their list
form. -/
theorem ofParameters_toParameter {options : Choices}
    (hexpressible : (choices options).IsExpressible) :
    Choices.ofParameters [options.toParameter] = .ok options := by
  cases options with
  | plain values =>
    simp only [Choices.toParameter, Json.texts, Choices.ofParameters, List.mapM_map,
      mapM_scalarText_text, Except.map]
  | described items =>
    have hparameter : (Choices.described items).toParameter =
        .object (Json.distinct (items.map fun item => (item.1, .text item.2))) := rfl
    have hkeys : (Json.keys (items.map fun item => (item.1, Json.text item.2))).Nodup := by
      have hitems : (items.map (·.1)).Nodup := hexpressible
      simpa [Json.keys, Function.comp_def] using hitems
    rw [hparameter]
    simp only [Choices.ofParameters, Json.distinct_of_nodup hkeys, List.mapM_map, map_eq_ok]
    have hread : items.mapM (fun item => (Json.text item.2).scalarText.map (item.1, ·)) =
        .ok (items.map id) := mapM_eq_ok_map fun _ _ => rfl
    rw [List.map_id] at hread
    exact ⟨items, hread, rfl⟩

/-- An expressible completion is read back from its list form. -/
theorem IsExpressible.ofList_toList {completion : Completion}
    (hexpressible : completion.IsExpressible) : ofList completion.toList = .ok completion := by
  cases completion with
  | choices options =>
    simp [ofList, toList, kind, parameters, ofKind, ofParameters_toParameter hexpressible,
      Except.map]
  | file path => cases path <;> rfl
  | directory path => cases path <;> rfl
  | range start stop step =>
    have hstep : step ≠ 0 := hexpressible
    by_cases hone : step = 1
    · simp [ofList, toList, kind, parameters, ofKind, rangeOf, hone, boundOf_int, bind,
        Except.bind, pure, Except.pure]
    · simp [ofList, toList, kind, parameters, ofKind, rangeOf, hone, hstep, boundOf_int, bind,
        Except.bind, pure, Except.pure]
  | exec line => rfl
  | valueList separator values =>
    have hseparator : separator ≠ "" := hexpressible
    simp [ofList, toList, kind, parameters, ofKind, valueListOf, listSetting, hseparator,
      Json.texts, mapM_scalarText_text, bind, Except.bind, pure, Except.pure, Except.map]
  | signal start =>
    by_cases hstart : start = ""
    · subst hstart; rfl
    · simp [ofList, toList, kind, parameters, ofKind, hstart]
  | _ => rfl

/-- Settings of a value list never give an empty separator. -/
theorem separator_ne_of_listSetting {found : String × Option (List String)}
    {setting : String × Json} {result : String × Option (List String)}
    (hfound : found.1 ≠ "") (hread : listSetting found setting = .ok result) : result.1 ≠ "" := by
  revert hread
  fun_cases listSetting found setting with
  | case1 name separator hseparator =>
    rintro ⟨⟩
    simp only [Bool.and_eq_true, Bool.not_eq_true', String.isEmpty_eq_false_iff] at hseparator
    exact hseparator.2
  | case3 name items hname =>
    intro hread
    obtain ⟨values, -, rfl⟩ := map_eq_ok.mp hread
    exact hfound
  | _ => intro hread; cases hread

/-- Reading choices repeats no described value. -/
theorem isExpressible_of_ofParameters {given : List Json} {options : Choices}
    (hread : Choices.ofParameters given = .ok options) : (choices options).IsExpressible := by
  revert hread
  fun_cases Choices.ofParameters given with
  | case1 values =>
    intro hread
    obtain ⟨texts, -, rfl⟩ := map_eq_ok.mp hread
    trivial
  | case2 entries =>
    intro hread
    obtain ⟨items, hitems, rfl⟩ := map_eq_ok.mp hread
    have hkeys : items.map (·.1) = Json.keys (Json.distinct entries) := by
      have hpairs := mapM_eq_ok.mp hitems
      have hsame : List.Forall₂ (fun (item : String × String) (entry : String × Json) =>
          item.1 = entry.1) items (Json.distinct entries) := by
        refine (hpairs.imp fun entry item hentry => ?_).flip
        obtain ⟨text, -, rfl⟩ := map_eq_ok.mp hentry
        rfl
      rw [← List.forall₂_eq_eq_eq, Json.keys, List.forall₂_map_left_iff,
        List.forall₂_map_right_iff]
      exact hsame
    change (items.map (·.1)).Nodup
    rw [hkeys]
    exact Json.nodup_keys_distinct entries
  | case3 => intro hread; cases hread

/-- Reading a range gives one that advances. -/
theorem isExpressible_of_rangeOf {given : List Json} {completion : Completion}
    (hread : rangeOf given = .ok completion) : completion.IsExpressible := by
  obtain ⟨bounds, -, hbounds⟩ := bind_eq_ok.mp hread
  split at hbounds
  · cases hbounds
    exact (by decide : (1 : Int64) ≠ 0)
  · split at hbounds
    · cases hbounds
    · rename_i hstep
      cases hbounds
      exact fun heq => hstep (by simpa using heq)
  · cases hbounds

/-- Reading a value list gives one with a separator. -/
theorem isExpressible_of_valueListOf {given : List Json} {completion : Completion}
    (hread : valueListOf given = .ok completion) : completion.IsExpressible := by
  unfold valueListOf at hread
  split at hread
  · rename_i settings
    obtain ⟨⟨separator, values⟩, hsettings, hvalues⟩ := bind_eq_ok.mp hread
    have hseparator : separator ≠ "" :=
      foldlM_invariant (fun found => found.1 ≠ "")
        (fun _ _ _ _ hfound => separator_ne_of_listSetting hfound) (by decide) hsettings
    cases values with
    | none => cases hvalues
    | some values =>
      cases hvalues
      exact hseparator
  · cases hread

/-- A completion that was read from a list form can be expressed. -/
theorem isExpressible_of_ofList {items : List Json} {completion : Completion}
    (hread : ofList items = .ok completion) : completion.IsExpressible := by
  revert hread
  fun_cases ofList items with
  | case1 => rintro ⟨⟩; trivial
  | case2 kind given =>
    fun_cases ofKind kind given with
    | case1 =>
      intro hread
      obtain ⟨options, hoptions, rfl⟩ := map_eq_ok.mp hread
      exact isExpressible_of_ofParameters hoptions
    | case2 | case3 =>
      intro hread
      obtain ⟨path, -, rfl⟩ := map_eq_ok.mp hread
      trivial
    | case4 => exact isExpressible_of_rangeOf
    | case7 => exact isExpressible_of_valueListOf
    | case11 =>
      rename_i hfind _
      rintro ⟨⟩
      have hplain := List.mem_of_find?_eq_some hfind
      simp only [withoutParameters, List.mem_cons, List.not_mem_nil, or_false] at hplain
      rcases hplain with rfl | rfl | rfl | rfl | rfl | rfl | rfl | rfl | rfl <;> trivial
    | _ => rintro ⟨⟩ <;> trivial
  | case3 => intro hread; cases hread

/-- Exactly the expressible completions are read back from their list form. Only these are read
from list forms at all, so writing and reading a list form once more changes nothing. -/
theorem ofList_toList_iff :
    (∀ completion : Completion,
      ofList completion.toList = .ok completion ↔ completion.IsExpressible) ∧
    ∀ (items : List Json) (completion : Completion), ofList items = .ok completion →
      completion.IsExpressible ∧ ofList completion.toList = .ok completion := by
  refine ⟨fun completion => ⟨isExpressible_of_ofList, IsExpressible.ofList_toList⟩,
    fun items completion hread => ?_⟩
  have hexpressible : completion.IsExpressible := isExpressible_of_ofList hread
  exact ⟨hexpressible, hexpressible.ofList_toList⟩

/-- Of two descriptions of one value the last one is read, in the place of the first one. -/
theorem ofList_toList_iff_repeated :
    let items : List Json := [.text "choices", .object [("auto", .text "Guess"),
      ("never", .text ""), ("auto", .text "Detect")]]
    let completion : Completion := .choices (.described [("auto", "Detect"), ("never", "")])
    ofList items = .ok completion ∧ completion.IsExpressible ∧
      ofList completion.toList = .ok completion := by
  intro items completion
  have hread : ofList items = .ok completion := by rfl
  exact ⟨hread, ofList_toList_iff.2 items completion hread⟩

/-- Data keeps texts. -/
theorem areKept_texts (values : List String) : Json.AreKept (values.map .text) := by
  induction values with
  | nil => trivial
  | cons value rest ih => exact ⟨trivial, ih⟩

/-- Data keeps the parameter of choices, even if a described value were repeated. -/
theorem isKept_toParameter (options : Choices) : options.toParameter.IsKept := by
  cases options with
  | plain values => exact areKept_texts values
  | described items =>
    refine ⟨Json.nodup_keys_distinct _, Json.entriesKept_distinct ?_⟩
    induction items with
    | nil => trivial
    | cons item rest ih => exact ⟨trivial, ih⟩

/-- Data keeps every list form. -/
theorem areKept_toList (completion : Completion) : Json.AreKept completion.toList := by
  refine ⟨trivial, ?_⟩
  cases completion with
  | choices options => exact ⟨isKept_toParameter options, trivial⟩
  | file path | directory path => cases path <;> simp [parameters, Json.AreKept, Json.IsKept,
      Json.EntriesKept, Json.keys]
  | range start stop step =>
    simp only [parameters]
    split <;> simp [Json.AreKept, Json.int, Json.IsKept]
  | exec line => exact ⟨trivial, trivial⟩
  | valueList separator values =>
    exact ⟨⟨by simp [Json.keys], trivial, areKept_texts values, trivial⟩, trivial⟩
  | signal start =>
    simp only [parameters]
    split <;> simp [Json.AreKept, Json.IsKept]
  | _ => trivial

end ShellCompletion.Completion
