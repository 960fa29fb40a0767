import ShellCompletion.Document.Export
import ShellCompletion.Document.Import
import ShellCompletion.Proofs.Completion.ListForm
import ShellCompletion.Proofs.Condition.RoundTrip

/-!
# Options and positional arguments of documents

An option or a positional argument that a document described is written as a document
that describes the same one. Documents can express exactly the completions and conditions
that were read from one.
-/

namespace ShellCompletion

variable {owner : String}

/-! ## Completions and conditions -/

/-- Nothing is completed by one completion only. -/
theorem Completion.eq_none_of_isNone {completion : Completion} (hnone : completion.isNone) :
    completion = .none := by
  cases completion with
  | none => rfl
  | _ => cases hnone

/-- An expressible completion is read back from its document. -/
theorem Completion.IsExpressible.readCompletion_toDocument {completion : Completion}
    (hexpressible : completion.IsExpressible) (owner : String) :
    readCompletion owner completion.toDocument = .ok completion := by
  unfold Completion.toDocument
  split
  · rename_i hnone
    rw [Completion.eq_none_of_isNone hnone, readCompletion]
  · rw [readCompletion, hexpressible.ofList_toList]

/-- A completion that was read from a document is expressible. -/
theorem isExpressible_of_readCompletion {complete : Option (List Json)} {completion : Completion}
    (hread : readCompletion owner complete = .ok completion) : completion.IsExpressible := by
  cases complete with
  | none =>
    cases hread
    trivial
  | some items =>
    rw [readCompletion] at hread
    split at hread
    · rename_i found hfound
      cases hread
      exact Completion.isExpressible_of_ofList hfound
    · cases hread

/-- An expressible condition is read back from its document. -/
theorem readCondition_render {condition : Option Condition}
    (hexpressible : ∀ c ∈ condition, c.IsExpressible) (owner : String) :
    readCondition owner (condition.map (·.render)) = .ok condition := by
  cases condition with
  | none => rfl
  | some condition =>
    rw [Option.map_some, readCondition, (hexpressible condition rfl).parse_render]

/-- A condition that was read from a document is expressible. -/
theorem isExpressible_of_readCondition {text : Option String} {condition : Option Condition}
    (hread : readCondition owner text = .ok condition) :
    ∀ c ∈ condition, c.IsExpressible := by
  cases text with
  | none =>
    cases hread
    simp
  | some line =>
    rw [readCondition] at hread
    split at hread
    · rename_i found hfound
      cases hread
      intro c hc
      cases hc
      exact Condition.isExpressible_of_parse hfound
    · cases hread

/-! ## Options -/

/-- An option that a document can describe. -/
structure CommandOption.IsExpressible (option : CommandOption) : Prop where
  /-- The list form can express its completion. -/
  completion : option.completion.IsExpressible
  /-- A line can express its condition. -/
  condition : ∀ condition ∈ option.when, condition.IsExpressible
  /-- A flag has no name of a value. -/
  metavar : option.arity.takesValue = false → option.metavar = none
  /-- A flag has no completion of a value. -/
  completion_eq_none : option.arity.takesValue = false → option.completion = .none

/-- A draft declares the option with its fields if its completion is settled and a flag has neither
a name nor a completion of a value. That no string is at fault is part of the option. -/
theorem OptionDraft.build_eq_ok {draft : OptionDraft} {option : CommandOption} :
    draft.build = .ok option ↔
      draft.resolvedCompletion = .ok option.completion ∧ option.when = draft.when ∧
        option.strings = draft.strings ∧ option.metavar = draft.metavar ∧
        option.help = draft.help ∧ option.arity = draft.arity ∧
        option.repeatable = draft.repeatable ∧ option.group = draft.group ∧
        (draft.arity.takesValue = false →
          draft.metavar = none ∧ option.completion = .none) := by
  constructor
  · intro hbuild
    unfold build at hbuild
    split at hbuild
    · cases hbuild
    · split at hbuild
      · cases hbuild
      · rename_i hmetavar
        obtain ⟨completion, hcompletion, hrest⟩ := bind_eq_ok.mp hbuild
        dsimp only at hrest
        split at hrest
        · cases hrest
        · rename_i hneedless
          cases hrest
          refine ⟨hcompletion, rfl, rfl, rfl, rfl, rfl, rfl, rfl, fun hflag => ?_⟩
          simp only [hflag] at hmetavar hneedless
          refine ⟨by simpa using hmetavar, Completion.eq_none_of_isNone ?_⟩
          simpa using hneedless
  · obtain ⟨strings, metavar, help, arity, repeatable, group, condition, completion, hsound⟩ :=
      option
    rintro ⟨hcompletion, rfl, rfl, rfl, rfl, rfl, rfl, rfl, hflag⟩
    unfold build
    split
    · rename_i fault hfault
      rw [hsound] at hfault
      cases hfault
    · cases htakes : draft.arity.takesValue with
      | true => simp [hcompletion, bind, Except.bind, pure, Except.pure]
      | false =>
        obtain ⟨hmetavar, hnone⟩ := hflag htakes
        simp only at hnone
        simp [hcompletion, hmetavar, hnone, Completion.isNone, bind, Except.bind, pure,
          Except.pure]

/-- The option that a document describes has the fields of the document. -/
theorem OptionDocument.toOption_eq_ok {document : OptionDocument} {option : CommandOption} :
    document.toOption = .ok option ↔
      readCompletion ("|".intercalate document.optionStrings) document.complete =
          .ok option.completion ∧
        readCondition ("|".intercalate document.optionStrings) document.when = .ok option.when ∧
        option.strings = document.optionStrings ∧ option.metavar = document.metavar ∧
        option.help = document.help ∧ option.arity = document.takesArgs ∧
        option.repeatable = document.multipleOption ∧ option.group = document.group ∧
        (document.takesArgs.takesValue = false →
          document.metavar = none ∧ option.completion = .none) := by
  unfold toOption
  simp only [bind_eq_ok, OptionDraft.build_eq_ok, OptionDraft.resolvedCompletion,
    Except.ok.injEq]
  constructor
  · rintro ⟨completion, hcompletion, condition, hcondition, rfl, rfl, hfields⟩
    exact ⟨hcompletion, hcondition, hfields⟩
  · rintro ⟨hcompletion, hcondition, hfields⟩
    exact ⟨_, hcompletion, _, hcondition, rfl, rfl, hfields⟩

/-- An option that was written is read back. -/
theorem CommandOption.IsExpressible.toOption_toDocument {option : CommandOption}
    (hexpressible : option.IsExpressible) : option.toDocument.toOption = .ok option :=
  OptionDocument.toOption_eq_ok.mpr
    ⟨hexpressible.completion.readCompletion_toDocument _,
      readCondition_render hexpressible.condition _, rfl, rfl, rfl, rfl, rfl, rfl,
      fun hflag => ⟨hexpressible.metavar hflag, hexpressible.completion_eq_none hflag⟩⟩

/-- A document can describe the option that was read from one. -/
theorem isExpressible_of_toOption {document : OptionDocument} {option : CommandOption}
    (hread : document.toOption = .ok option) : option.IsExpressible := by
  obtain ⟨hcompletion, hcondition, -, hmetavar, -, harity, -, -, hflag⟩ :=
    OptionDocument.toOption_eq_ok.mp hread
  rw [← harity, ← hmetavar] at hflag
  exact ⟨isExpressible_of_readCompletion hcompletion, isExpressible_of_readCondition hcondition,
    fun h => (hflag h).1, fun h => (hflag h).2⟩

/-! ## Positional arguments -/

/-- A positional argument that a document can describe. -/
structure Positional.IsExpressible (positional : Positional) : Prop where
  /-- The list form can express its completion. -/
  completion : positional.completion.IsExpressible
  /-- A line can express its condition. -/
  condition : ∀ condition ∈ positional.when, condition.IsExpressible

/-- A positional argument that was written is read back, whatever its number. -/
theorem Positional.IsExpressible.toPositional_toDocument {positional : Positional}
    (hexpressible : positional.IsExpressible) (number : Nat) :
    (positional.toDocument number).toPositional = .ok positional := by
  have hcompletion := hexpressible.completion.readCompletion_toDocument positional.metavar
  have hcondition := readCondition_render hexpressible.condition positional.metavar
  unfold PositionalDocument.toPositional
  simp only [toDocument, hcompletion, hcondition, bind, Except.bind, pure, Except.pure]

/-- A document can describe the positional argument that was read from one. -/
theorem isExpressible_of_toPositional {document : PositionalDocument} {positional : Positional}
    (hread : document.toPositional = .ok positional) : positional.IsExpressible := by
  obtain ⟨completion, hcompletion, hrest⟩ := bind_eq_ok.mp hread
  obtain ⟨condition, hcondition, hresult⟩ := bind_eq_ok.mp hrest
  cases hresult
  exact ⟨isExpressible_of_readCompletion hcompletion, isExpressible_of_readCondition hcondition⟩

end ShellCompletion
