import Mathlib.Data.List.Basic
import ShellCompletion.Data.Shape

/-!
# JSON values as data

JSON values that have every key of an object once, and only numbers that JSON can
write, are the same after they were turned into data and read as JSON again.
-/

namespace ShellCompletion.Json

/-- The keys of entries. -/
abbrev keys {α : Type} (entries : List (String × α)) : List String :=
  entries.map (·.1)

/-- An entry with a new key goes to the end. -/
theorem put_of_notMem {α : Type} {entries : List (String × α)} {key : String} {value : α}
    (hkey : key ∉ keys entries) : put entries key value = entries ++ [(key, value)] := by
  induction entries with
  | nil => rfl
  | cons entry rest ih =>
    obtain ⟨name, old⟩ := entry
    simp only [keys, List.map_cons, List.mem_cons, not_or] at hkey
    have hname : (name == key) = false := by simpa using fun heq : name = key => hkey.1 heq.symm
    simp [put, hname, ih hkey.2]

/-- Putting an entry adds its key and no other one, and repeats none. -/
theorem keys_put {α : Type} (entries : List (String × α)) (key : String) (value : α) :
    keys (put entries key value) =
      if key ∈ keys entries then keys entries else keys entries ++ [key] := by
  induction entries with
  | nil => simp [put]
  | cons entry rest ih =>
    obtain ⟨name, old⟩ := entry
    by_cases hname : name = key
    · simp [put, hname]
    · have hkey : key ≠ name := fun heq => hname heq.symm
      simp only [keys] at ih
      simp only [put, beq_iff_eq, hname, if_false, keys, List.map_cons, List.mem_cons, hkey,
        false_or, ih]
      split <;> simp

/-- Entries whose keys are all different stay as they are behind other ones. -/
private theorem foldl_put_of_nodup {α : Type} {kept entries : List (String × α)}
    (hkeys : (keys (kept ++ entries)).Nodup) :
    entries.foldl (fun kept (key, value) => put kept key value) kept = kept ++ entries := by
  induction entries generalizing kept with
  | nil => simp
  | cons entry rest ih =>
    obtain ⟨key, value⟩ := entry
    have hkey : key ∉ keys kept := by
      simp only [keys, List.map_append, List.map_cons] at hkeys
      intro hmem
      exact (List.nodup_append.mp hkeys).2.2 key hmem key List.mem_cons_self rfl
    rw [List.foldl_cons]
    change rest.foldl _ (put kept key value) = _
    rw [put_of_notMem hkey, ih (by simpa using hkeys)]
    simp

/-- Entries whose keys are all different stay as they are. -/
theorem distinct_of_nodup {α : Type} {entries : List (String × α)}
    (hkeys : (keys entries).Nodup) : distinct entries = entries := by
  have hfold := @foldl_put_of_nodup α [] entries hkeys
  exact hfold

/-- Distinct entries have different keys. -/
theorem nodup_keys_distinct {α : Type} (entries : List (String × α)) :
    (keys (distinct entries)).Nodup := by
  have hfold : ∀ kept : List (String × α), (keys kept).Nodup →
      (keys (entries.foldl (fun kept (key, value) => put kept key value) kept)).Nodup := by
    induction entries with
    | nil => simp
    | cons entry rest ih =>
      intro kept hkept
      obtain ⟨key, value⟩ := entry
      apply ih
      rw [keys_put]
      split
      · exact hkept
      · rename_i hkey
        exact List.nodup_append.mpr ⟨hkept, by simp, by
          intro a ha b hb
          simp only [List.mem_singleton] at hb
          exact fun heq => hkey (hb ▸ heq ▸ ha)⟩
  exact hfold [] (by simp)

mutual

/-- Whether data keeps the value: its numbers are finite, and its objects have every key
once. -/
def IsKept : Json → Prop
  | .number (.float value) => value.isFinite = true
  | .list items => AreKept items
  | .object entries => (keys entries).Nodup ∧ EntriesKept entries
  | _ => True

/-- Whether data keeps several values. -/
def AreKept : List Json → Prop
  | [] => True
  | item :: rest => item.IsKept ∧ AreKept rest

/-- Whether data keeps the values of entries. -/
def EntriesKept : List (String × Json) → Prop
  | [] => True
  | (_, value) :: rest => value.IsKept ∧ EntriesKept rest

end

/-- Putting an entry among kept ones keeps them. -/
theorem entriesKept_put {entries : List (String × Json)} {key : String} {value : Json}
    (hentries : EntriesKept entries) (hvalue : value.IsKept) :
    EntriesKept (put entries key value) := by
  induction entries with
  | nil => exact ⟨hvalue, trivial⟩
  | cons entry rest ih =>
    simp only [put]
    split
    · exact ⟨hvalue, hentries.2⟩
    · exact ⟨hentries.1, ih hentries.2⟩

/-- Making kept entries distinct keeps them. -/
theorem entriesKept_distinct {entries : List (String × Json)} (hentries : EntriesKept entries) :
    EntriesKept (distinct entries) := by
  have hfold : ∀ kept, EntriesKept kept →
      EntriesKept (entries.foldl (fun kept entry => put kept entry.1 entry.2) kept) := by
    induction entries with
    | nil => exact fun kept hkept => hkept
    | cons entry rest ih =>
      exact fun kept hkept => ih hentries.2 _ (entriesKept_put hkept hentries.1)
  exact hfold [] trivial

mutual

/-- A value that data keeps is read back from its data. -/
theorem toJson_toData : ∀ {value : Json}, value.IsKept → value.toData.toJson = .ok value
  | .null, _ => rfl
  | .bool _, _ => rfl
  | .number (.int _), _ => rfl
  | .number (.float value), hkept => by
    have hfinite : value.isFinite = true := hkept
    simp [toData, Data.toJson, hfinite]
  | .text _, _ => rfl
  | .list items, hkept => by
    simp [toData, Data.toJson, toJsonItems_toDataItems hkept, Except.map]
  | .object entries, hkept => by
    simp [toData, Data.toJson, toJsonEntries_toDataEntries hkept.2, Except.map,
      distinct_of_nodup hkept.1]

/-- Values that data keeps are read back from their data. -/
theorem toJsonItems_toDataItems : ∀ {items : List Json}, AreKept items →
    Data.toJsonItems (toDataItems items) = .ok items
  | [], _ => rfl
  | item :: rest, hkept => by
    simp [toDataItems, Data.toJsonItems, toJson_toData hkept.1,
      toJsonItems_toDataItems hkept.2, bind, Except.bind, pure, Except.pure]

/-- Entries whose values data keeps are read back from their data. -/
theorem toJsonEntries_toDataEntries : ∀ {entries : List (String × Json)}, EntriesKept entries →
    Data.toJsonEntries (toDataEntries entries) = .ok entries
  | [], _ => rfl
  | (key, value) :: rest, hkept => by
    simp [toDataEntries, Data.toJsonEntries, Data.asKey, toJson_toData hkept.1,
      toJsonEntries_toDataEntries hkept.2, bind, Except.bind, pure, Except.pure]

end

end ShellCompletion.Json
