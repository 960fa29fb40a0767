import ShellCompletion.Proofs.Text.Quoting
import ShellCompletion.Script.Zsh.Action

/-!
# Fields of a specification

How zsh reads a specification: after the option strings and a description in brackets, every
field has a colon before it. A backslash keeps the next character from being special. So a text
is one field if all colons in it are kept so.
-/

namespace ShellCompletion.Zsh

variable {slashed : Bool} {chars rest : List Char} {text : String}

/-! ## The reader -/

/-- Whether a backslash that is not behind another one stands at the end. -/
def endsSlashed : Bool → List Char → Bool
  | slashed, [] => slashed
  | true, _ :: rest => endsSlashed false rest
  | false, c :: rest => endsSlashed (c == '\\') rest

/-- Whether there is a colon that no backslash keeps from being special. -/
def hasBareColon : Bool → List Char → Bool
  | _, [] => false
  | true, _ :: rest => hasBareColon false rest
  | false, c :: rest => c == ':' || hasBareColon (c == '\\') rest

/-- The characters with one more at the beginning of the first field. -/
def pushField (c : Char) : List (List Char) → List (List Char)
  | [] => [[c]]
  | field :: rest => (c :: field) :: rest

/-- The fields between special colons. -/
def splitFields : Bool → List Char → List (List Char)
  | _, [] => [[]]
  | true, c :: rest => pushField c (splitFields false rest)
  | false, c :: rest =>
    if c = ':' then [] :: splitFields false rest else pushField c (splitFields (c == '\\') rest)

/-- What is left from the first special mark on. -/
def dropTo (marks : List Char) : Bool → List Char → List Char
  | _, [] => []
  | true, _ :: rest => dropTo marks false rest
  | false, c :: rest => if c ∈ marks then c :: rest else dropTo marks (c == '\\') rest

/-- What is left behind a description in brackets, if there is one. -/
def dropHelp : List Char → List Char
  | '[' :: rest => (dropTo [']'] false rest).tail
  | chars => chars

/-- The fields of a specification behind the option strings and the description. Every field has
a colon before it. -/
def fieldsOf (text : String) : List String :=
  match dropHelp (dropTo [':', '['] false text.toList) with
  | ':' :: rest => (splitFields false rest).map String.ofList
  | _ => []

/-- The characters less the backslashes that keep others from being special. -/
def unescapeChars : Bool → List Char → List Char
  | _, [] => []
  | true, c :: rest => c :: unescapeChars false rest
  | false, c :: rest =>
    if c = '\\' then unescapeChars true rest else c :: unescapeChars false rest

/-- The text that a field stands for. -/
def unescapeField (field : String) : String :=
  String.ofList (unescapeChars false field.toList)

/-! ## Parts of a text -/

/-- A backslash at the end of the first part is one before the second part. -/
theorem endsSlashed_append (first second : List Char) :
    endsSlashed slashed (first ++ second) = endsSlashed (endsSlashed slashed first) second := by
  induction first generalizing slashed with
  | nil => rfl
  | cons c rest ih => cases slashed <;> simp [endsSlashed, ih]

/-- Special colons are in the first part or in the second one. -/
theorem hasBareColon_append (first second : List Char) : hasBareColon slashed (first ++ second) =
    (hasBareColon slashed first || hasBareColon (endsSlashed slashed first) second) := by
  induction first generalizing slashed with
  | nil => simp [hasBareColon, endsSlashed]
  | cons c rest ih => cases slashed <;> simp [hasBareColon, endsSlashed, ih, Bool.or_assoc]

/-- Without colons there are no special ones. -/
theorem hasBareColon_of_notMem (hchars : ':' ∉ chars) : hasBareColon slashed chars = false := by
  induction chars generalizing slashed with
  | nil => rfl
  | cons c rest ih =>
    rw [List.mem_cons, not_or] at hchars
    cases slashed <;> simp [hasBareColon, ih hchars.2, Ne.symm hchars.1]

/-- Without backslashes none stands at the end. -/
theorem endsSlashed_of_notMem (hchars : '\\' ∉ chars) : endsSlashed false chars = false := by
  induction chars with
  | nil => rfl
  | cons c rest ih =>
    rw [List.mem_cons, not_or] at hchars
    have hc : (c == '\\') = false := by simpa using Ne.symm hchars.1
    rw [endsSlashed, hc, ih hchars.2]

/-- Another character at the end is not a backslash, whatever is before it. -/
theorem endsSlashed_concat {c : Char} (hc : c ≠ '\\') (chars : List Char) :
    endsSlashed slashed (chars ++ [c]) = false := by
  rw [endsSlashed_append]
  cases endsSlashed slashed chars <;> simp [endsSlashed, hc]

/-- Characters that are not special are dropped. -/
theorem dropTo_append {marks : List Char} {start : List Char}
    (hstart : ∀ c ∈ start, c ∉ marks ∧ c ≠ '\\') (rest : List Char) :
    dropTo marks false (start ++ rest) = dropTo marks false rest := by
  induction start with
  | nil => rfl
  | cons c start ih =>
    obtain ⟨⟨hmark, hslash⟩, hstart⟩ := List.forall_mem_cons.mp hstart
    rw [List.cons_append, dropTo, if_neg hmark, beq_eq_false_iff_ne.mpr hslash, ih hstart]

/-! ## Single fields -/

/-- There is at least one field. -/
theorem splitFields_ne_nil (slashed : Bool) (chars : List Char) :
    splitFields slashed chars ≠ [] := by
  have hpush (c : Char) (fields : List (List Char)) : pushField c fields ≠ [] := by
    cases fields <;> simp [pushField]
  cases chars with
  | nil => simp [splitFields]
  | cons c rest =>
    cases slashed with
    | true => exact hpush _ _
    | false =>
      rw [splitFields]
      split
      · simp
      · exact hpush _ _

/-- A text is one field exactly if no colon in it is special. -/
theorem splitFields_eq_singleton_iff :
    splitFields slashed chars = [chars] ↔ hasBareColon slashed chars = false := by
  have hpush (c : Char) (fields : List (List Char)) (rest : List Char) (hne : fields ≠ []) :
      pushField c fields = [c :: rest] ↔ fields = [rest] := by
    cases fields with
    | nil => exact absurd rfl hne
    | cons field others => simp [pushField]
  induction chars generalizing slashed with
  | nil => simp [splitFields, hasBareColon]
  | cons c rest ih =>
    cases slashed with
    | true =>
      rw [splitFields, hasBareColon]
      exact (hpush _ _ _ (splitFields_ne_nil _ _)).trans ih
    | false =>
      rw [splitFields, hasBareColon]
      by_cases hc : c = ':'
      · simp [hc]
      · rw [if_neg hc]
        refine (hpush _ _ _ (splitFields_ne_nil _ _)).trans (ih.trans ?_)
        simp [hc]

/-! ## Escaped texts -/

/-- A character as it is written in a field. -/
def fieldChar (c : Char) : List Char :=
  if isFieldMark c then ['\\', c] else [c]

/-- The characters of a text in a field. -/
theorem toList_escapeField (text : String) :
    (escapeField text).toList = text.toList.flatMap fieldChar :=
  String.toList_ofList

/-- Every other character than a mark is written as itself. -/
theorem fieldChar_cases (c : Char) : fieldChar c = ['\\', c] ∨
    fieldChar c = [c] ∧ (c == '\\') = false ∧ c ≠ '\\' ∧ c ≠ ']' ∧ c ≠ ':' := by
  by_cases hc : isFieldMark c = true
  · exact .inl (if_pos hc)
  · simp only [isFieldMark, Bool.or_eq_true, beq_iff_eq, not_or] at hc
    exact .inr ⟨if_neg (by simp [isFieldMark, hc]), by simp [hc], by simp [hc]⟩

/-- An escaped text is a field of its own. -/
theorem splitFields_escaped (chars rest : List Char) :
    splitFields false (chars.flatMap fieldChar ++ ':' :: rest) =
      chars.flatMap fieldChar :: splitFields false rest := by
  induction chars with
  | nil => simp [splitFields]
  | cons c chars ih =>
    rw [List.flatMap_cons, List.append_assoc]
    obtain hc | ⟨hc, hplain⟩ := fieldChar_cases c
    · simp [hc, splitFields, pushField, ih]
    · simp [hc, hplain, splitFields, pushField, ih]

/-- No bracket ends a description before its end. -/
theorem dropTo_escaped (chars rest : List Char) :
    dropTo [']'] false (chars.flatMap fieldChar ++ ']' :: rest) = ']' :: rest := by
  induction chars with
  | nil => simp [dropTo]
  | cons c chars ih =>
    rw [List.flatMap_cons, List.append_assoc]
    obtain hc | ⟨hc, hplain⟩ := fieldChar_cases c
    · simp [hc, dropTo, ih]
    · simp [hc, hplain, dropTo, ih]

/-- An escaped text is read as itself. -/
theorem unescapeField_escapeField (text : String) : unescapeField (escapeField text) = text := by
  have hchars (chars : List Char) : unescapeChars false (chars.flatMap fieldChar) = chars := by
    induction chars with
    | nil => rfl
    | cons c chars ih =>
      rw [List.flatMap_cons]
      obtain hc | ⟨hc, hplain⟩ := fieldChar_cases c
      · simp [hc, unescapeChars, ih]
      · simp [hc, hplain, unescapeChars, ih]
  rw [unescapeField, toList_escapeField, hchars, String.ofList_toList]

end ShellCompletion.Zsh
