import ShellCompletion.Proofs.InStep
import ShellCompletion.Proofs.Script.Compilation

/-!
# Shared conditions of fish lines

The lines of a script for fish carry their conditions themselves or refer to variables that
hold them. Both scripts are the same once every reference is replaced by what its variable holds.
-/

namespace ShellCompletion

variable {tree : CommandTree} {config : Config} {scope : Scope} {inline : Bool} {id : Nat}

/-! ## The switch -/

/-- The configuration in which lines carry their conditions themselves, or refer to variables. -/
def Config.withInline (config : Config) (inline : Bool) : Config :=
  { config with fishInlineConditions := inline }

/-- The scope under such a configuration. -/
def Scope.withInline (scope : Scope) (inline : Bool) : Scope :=
  { scope with config := scope.config.withInline inline }

/-- The scopes of a tree change with the configuration. -/
theorem CommandTree.scope_withInline (tree : CommandTree) (config : Config) (inline : Bool)
    (id : Nat) :
    tree.scope (config.withInline inline) id = (tree.scope config id).withInline inline :=
  rfl

namespace Scope

@[simp] theorem own_withInline : (scope.withInline inline).own = scope.own :=
  rfl

@[simp] theorem subcommandNumber_withInline :
    (scope.withInline inline).subcommandNumber = scope.subcommandNumber :=
  rfl

@[simp] theorem visibleOptions_withInline :
    (scope.withInline inline).visibleOptions = scope.visibleOptions :=
  rfl

@[simp] theorem numberedPositionals_withInline :
    (scope.withInline inline).numberedPositionals = scope.numberedPositionals :=
  rfl

theorem isEmpty_withInline (scope : Scope) : (scope.withInline inline).isEmpty = scope.isEmpty :=
  rfl

@[simp] theorem whenGuard_withInline (condition : Option Condition) :
    (scope.withInline inline).whenGuard condition = scope.whenGuard condition :=
  rfl

@[simp] theorem optionGuard_withInline (declared : Declaration) :
    (scope.withInline inline).optionGuard declared = scope.optionGuard declared :=
  rfl

/-- The tests do not depend on how conditions are written. -/
theorem contextTests_withInline (place : Nat) (outer : List Level) :
    contextTests place (enclosing (config.withInline inline) outer) =
      contextTests place (enclosing config outer) := by
  induction outer generalizing place with
  | nil => rfl
  | cons level outer ih =>
    rw [enclosing, enclosing, contextTests, contextTests, ih]
    rfl

@[simp] theorem context_withInline : (scope.withInline inline).context = scope.context := by
  rw [context, context]
  exact congrArg (fun tests : List Guard => Guard.conj tests.reverse)
    (contextTests_withInline scope.own.place scope.outer)

end Scope

@[simp] theorem Fish.beforeSubcommand_withInline :
    Fish.beforeSubcommand (scope.withInline inline) = Fish.beforeSubcommand scope :=
  rfl

@[simp] theorem Fish.guardCode_withInline (guard : Guard) :
    Fish.guardCode (scope.withInline inline) guard = Fish.guardCode scope guard :=
  rfl

theorem CommandTree.checkConditions_withInline :
    tree.checkConditions (config.withInline inline) = tree.checkConditions config :=
  rfl

namespace Fish

/-! ## References to variables -/

/-- Variables that hold the codes, numbered from one on. -/
def numbered (codes : List String) : List GuardVariable :=
  codes.zipIdx.map fun (code, place) => ⟨place + 1, code⟩

/-- The variables that sections declare, in order. -/
def declarations (parts : List Section) : List GuardVariable :=
  parts.flatMap (·.declarations)

/-- The condition with the code of its variable in place of a reference. -/
def LineCondition.inlined (known : List GuardVariable) : LineCondition → LineCondition
  | .shared number =>
    match known.find? (·.number == number) with
    | some held => .inline held.code
    | none => .shared number
  | condition => condition

/-- The line with the code of its variable in place of a reference. -/
def CompleteLine.inlined (known : List GuardVariable) (line : CompleteLine) : CompleteLine :=
  { line with condition := line.condition.inlined known }

/-- The section without declarations, its lines with codes in place of references. -/
def Section.inlined (known : List GuardVariable) (part : Section) : Section :=
  { part with declarations := [], lines := part.lines.map (·.inlined known) }

/-- A condition that is always true, or refers to one of the variables. -/
def LineCondition.Refers (known : List GuardVariable) (condition : LineCondition) : Prop :=
  condition = .always ∨ ∃ held ∈ known, condition = .shared held.number

/-- The text of a line for a program, in which what follows the name of a variable in the text of
its declaration takes the place of the argument that refers to the variable, is that of another
line; a line that is always in force stays. -/
def CompleteLine.Replaced (program : String) (known : List GuardVariable)
    (line other : CompleteLine) : Prop :=
  line.condition = .always ∧ other = line ∨
    ∃ guard ∈ known, ∃ held rest,
      guard.render = "set -l guard" ++ toString guard.number ++ " " ++ held ∧
      line.render program =
        "complete -c " ++ program ++ " -n $guard" ++ toString guard.number ++ rest ∧
      other.render program = "complete -c " ++ program ++ " -n " ++ held ++ rest

/-- Every line refers to variables that its section or an earlier one declares. -/
def RefersBack (earlier : List GuardVariable) : List Section → Prop
  | [] => True
  | part :: rest =>
    (∀ line ∈ part.lines, line.condition.Refers (earlier ++ part.declarations)) ∧
      RefersBack (earlier ++ part.declarations) rest

variable {known more earlier : List GuardVariable} {condition : LineCondition}
  {line : CompleteLine} {codes : List String} {code : String}

/-- One more code makes one more variable. -/
theorem numbered_concat (codes : List String) (code : String) :
    numbered (codes ++ [code]) = numbered codes ++ [⟨codes.length + 1, code⟩] := by
  simp [numbered, List.zipIdx_append]

/-- The numbers are one, two, three and so on. -/
theorem map_number_numbered (codes : List String) :
    (numbered codes).map (·.number) = List.range' 1 codes.length := by
  refine List.ext_getElem (by simp [numbered]) fun place _ _ => ?_
  simp [numbered, Nat.add_comm]

/-- The variable with a number holds the code at its place. -/
theorem find?_numbered {place : Nat} (hcode : codes[place]? = some code) :
    (numbered codes).find? (·.number == place + 1) = some ⟨place + 1, code⟩ := by
  obtain ⟨hplace, hcode⟩ := List.getElem?_eq_some_iff.mp hcode
  refine List.find?_eq_some_iff_getElem.mpr ⟨beq_self_eq_true _, place, ?_, ?_, ?_⟩
  · simpa [numbered] using hplace
  · simp [numbered, hcode]
  · intro other hother
    simpa [numbered] using Nat.ne_of_lt hother

namespace LineCondition.Refers

/-- More variables do not change what is referred to. -/
theorem append (hrefers : condition.Refers known) (more : List GuardVariable) :
    condition.Refers (known ++ more) :=
  hrefers.imp_right fun ⟨held, hheld, hsame⟩ => ⟨held, List.mem_append_left more hheld, hsame⟩

/-- More variables do not change what a reference is replaced by. -/
theorem inlined_append (hrefers : condition.Refers known) (more : List GuardVariable) :
    condition.inlined (known ++ more) = condition.inlined known := by
  rcases hrefers with rfl | ⟨held, hheld, rfl⟩
  · rfl
  · have hfound : (known.find? (·.number == held.number)).isSome :=
      List.find?_isSome.mpr ⟨held, hheld, beq_self_eq_true _⟩
    rw [LineCondition.inlined, LineCondition.inlined, List.find?_append, Option.or_of_isSome hfound]

end LineCondition.Refers

/-- More variables do not change lines that do not refer to them. -/
theorem map_inlined_append {lines : List CompleteLine}
    (hrefers : ∀ line ∈ lines, line.condition.Refers known) (more : List GuardVariable) :
    lines.map (·.inlined (known ++ more)) = lines.map (·.inlined known) := by
  refine List.map_congr_left fun line hline => ?_
  rw [CompleteLine.inlined, CompleteLine.inlined, (hrefers line hline).inlined_append]

/-- The variables of a section come before those of later ones. -/
theorem declarations_cons (earlier : List GuardVariable) (part : Section) (rest : List Section) :
    earlier ++ declarations (part :: rest) =
      earlier ++ part.declarations ++ declarations rest := by
  rw [declarations, List.flatMap_cons, List.append_assoc]
  rfl

/-! ## Drafts -/

/-- The draft of a script that shares conditions, beside that of a script that does not, after
earlier sections. -/
structure Hoists (earlier : List GuardVariable) (hoisted plain : Draft) : Prop where
  /-- The variables that are declared hold the known conditions. -/
  known_eq : earlier ++ hoisted.declarations = numbered hoisted.shared
  /-- All lines refer to these variables. -/
  refers : ∀ line ∈ hoisted.lines, line.condition.Refers (numbered hoisted.shared)
  /-- Nothing is declared for lines that carry their conditions. -/
  declarations_eq : plain.declarations = []
  /-- Replacing the references makes lines that carry their conditions. -/
  lines_eq : plain.lines = hoisted.lines.map (·.inlined (numbered hoisted.shared))

/-- The condition of the next line with the draft, in both scripts. -/
structure HoistsNext (earlier : List GuardVariable) (condition plainCondition : LineCondition)
    (hoisted plain : Draft) : Prop where
  /-- The drafts belong together. -/
  hoists : Hoists earlier hoisted plain
  /-- The condition refers to the variables. -/
  refers : condition.Refers (numbered hoisted.shared)
  /-- Replacing the reference makes the condition that the line carries. -/
  condition_eq : plainCondition = condition.inlined (numbered hoisted.shared)

variable {hoisted plain : Draft} {plainCondition : LineCondition}

/-- A variable that holds the code of a condition stands for it. -/
theorem hoistsNext_shared {place : Nat} (hhoists : Hoists earlier hoisted plain)
    (hcode : hoisted.shared[place]? = some code) :
    HoistsNext earlier (.shared (place + 1)) (.inline code) hoisted plain := by
  have hfound := find?_numbered hcode
  refine ⟨hhoists, .inr ⟨_, List.mem_of_find?_eq_some hfound, rfl⟩, ?_⟩
  rw [LineCondition.inlined, hfound]

/-- Declaring one more variable changes no line. -/
theorem Hoists.declare (hhoists : Hoists earlier hoisted plain) (code : String) :
    Hoists earlier { hoisted with
      shared := hoisted.shared ++ [code]
      declarations := hoisted.declarations ++ [⟨hoisted.shared.length + 1, code⟩] } plain where
  known_eq := by
    rw [← List.append_assoc, hhoists.known_eq, numbered_concat]
  refers line hline := by
    rw [numbered_concat]
    exact (hhoists.refers line hline).append _
  declarations_eq := hhoists.declarations_eq
  lines_eq := by
    rw [hhoists.lines_eq, numbered_concat, map_inlined_append hhoists.refers]

/-- The condition for shell code is a reference to a variable that holds it. -/
theorem Hoists.conditionFor (hhoists : Hoists earlier hoisted plain) (code : String) :
    let next := hoisted.conditionFor (config.withInline false) code
    let plainNext := plain.conditionFor (config.withInline true) code
    HoistsNext earlier next.1 plainNext.1 next.2 plainNext.2 := by
  simp only [Draft.conditionFor, Config.withInline, Bool.false_eq_true, if_false]
  cases hplace : hoisted.shared.idxOf? code with
  | some place =>
    obtain ⟨hlt, hsame, -⟩ := List.idxOf?_eq_some_iff.mp hplace
    exact hoistsNext_shared hhoists (List.getElem?_eq_some_iff.mpr ⟨hlt, hsame⟩)
  | none =>
    have hlast : (hoisted.shared ++ [code])[hoisted.shared.length]? = some code := by simp
    exact hoistsNext_shared (hhoists.declare code) hlast

/-- A line is added to both drafts. -/
theorem HoistsNext.push (hnext : HoistsNext earlier condition plainCondition hoisted plain)
    (arguments : String) : HoistsNext earlier condition plainCondition
      (hoisted.push condition arguments) (plain.push plainCondition arguments) := by
  obtain ⟨hhoists, hrefers, hcondition⟩ := hnext
  refine ⟨⟨hhoists.known_eq, ?_, hhoists.declarations_eq, ?_⟩, hrefers, hcondition⟩
  · exact List.forall_mem_append.mpr ⟨hhoists.refers, List.forall_mem_singleton.mpr hrefers⟩
  · simp only [Draft.push, List.map_append, List.map_singleton, hhoists.lines_eq, hcondition,
      CompleteLine.inlined]

/-- Lines for the names of subcommands, all with one condition, are added to both drafts. -/
theorem HoistsNext.pushNames
    (hnext : HoistsNext earlier condition plainCondition hoisted plain) (commands : List Command) :
    let pushed := fun (condition : LineCondition) (draft : Draft) =>
      commands.foldl (fun draft command => command.names.foldl (fun draft name =>
        draft.push condition (subcommandArguments name command.help)) draft) draft
    HoistsNext earlier condition plainCondition (pushed condition hoisted)
      (pushed plainCondition plain) := by
  refine List.foldl_rel (r := HoistsNext earlier condition plainCondition) hnext
    fun command _ _ _ hbefore => ?_
  refine List.foldl_rel (r := HoistsNext earlier condition plainCondition) hbefore
    fun name _ _ _ hbefore => ?_
  exact hbefore.push (subcommandArguments name command.help)

/-! ## Writing both scripts -/

/-- The condition for a guard is the same in both scripts. -/
theorem Hoists.inStep_condition (hhoists : Hoists earlier hoisted plain) (guard : Guard) :
    InStep (fun next plainNext => HoistsNext earlier next.1 plainNext.1 next.2 plainNext.2)
      (hoisted.condition (scope.withInline false) guard)
      (plain.condition (scope.withInline true) guard) := by
  rw [Draft.condition, Draft.condition]
  split
  · exact inStep_pure ⟨hhoists, .inl rfl, rfl⟩
  · rw [guardCode_withInline, guardCode_withInline]
    exact InStep.after fun code => inStep_pure (hhoists.conditionFor code)

/-- The line of an option is the same in both scripts. -/
theorem Hoists.inStep_addOption (hhoists : Hoists earlier hoisted plain) (declared : Declaration) :
    InStep (Hoists earlier) (addOption (scope.withInline false) hoisted declared)
      (addOption (scope.withInline true) plain declared) := by
  rw [addOption, addOption]
  simp only [Scope.optionGuard_withInline, Scope.context_withInline, beforeSubcommand_withInline]
  refine InStep.after fun offered => (hhoists.inStep_condition _).bind fun next next' hnext => ?_
  exact InStep.after fun arguments => inStep_pure (hnext.push arguments).hoists

/-- The line of a positional argument is the same in both scripts. -/
theorem Hoists.inStep_addPositional (hhoists : Hoists earlier hoisted plain)
    (numbered : Nat × Positional) :
    InStep (Hoists earlier) (addPositional (scope.withInline false) hoisted numbered)
      (addPositional (scope.withInline true) plain numbered) := by
  rw [addPositional, addPositional]
  simp only [Scope.whenGuard_withInline, Scope.context_withInline]
  split
  · exact inStep_pure hhoists
  · refine InStep.after fun shown => (hhoists.inStep_condition _).bind fun next next' hnext => ?_
    exact InStep.after fun arguments => inStep_pure (hnext.push arguments).hoists

/-- The lines of the subcommands are the same in both scripts. -/
theorem Hoists.inStep_addSubcommands (hhoists : Hoists earlier hoisted plain) :
    InStep (Hoists earlier) (addSubcommands (scope.withInline false) hoisted)
      (addSubcommands (scope.withInline true) plain) := by
  rw [addSubcommands, addSubcommands]
  simp only [Scope.own_withInline, Scope.context_withInline, Scope.subcommandNumber_withInline]
  split
  · exact inStep_pure hhoists
  · refine (hhoists.inStep_condition _).bind fun next next' hnext => inStep_pure ?_
    exact (hnext.pushNames scope.own.subcommands).hoists

/-- A section of the script that shares conditions, with the conditions known after it, beside
the section of the script that does not. -/
structure HoistsSection (earlier : List GuardVariable) (hoisted plain : Section × List String) :
    Prop where
  /-- The variables that are declared hold the known conditions. -/
  known_eq : earlier ++ hoisted.1.declarations = numbered hoisted.2
  /-- All lines refer to these variables. -/
  refers : ∀ line ∈ hoisted.1.lines, line.condition.Refers (numbered hoisted.2)
  /-- Replacing the references makes the other section. -/
  section_eq : plain.1 = hoisted.1.inlined (numbered hoisted.2)

/-- The section of a command is the same in both scripts. -/
theorem inStep_commandSection (hknown : earlier = numbered codes) (others : List String) :
    InStep (HoistsSection earlier) (commandSection (scope.withInline false) codes)
      (commandSection (scope.withInline true) others) := by
  have hstart : Hoists earlier { shared := codes } { shared := others } :=
    ⟨by rw [hknown, List.append_nil], List.forall_mem_nil _, rfl, rfl⟩
  rw [commandSection, commandSection]
  simp only [Scope.visibleOptions_withInline, Scope.numberedPositionals_withInline]
  refine (InStep.foldlM (fun declared _ _ _ h => h.inStep_addOption declared) hstart).bind
    fun _ _ hoptions => ?_
  refine (InStep.foldlM (fun numbered _ _ _ h => h.inStep_addPositional numbered) hoptions).bind
    fun _ _ hpositionals => ?_
  refine hpositionals.inStep_addSubcommands.bind fun hoisted plain hdraft => inStep_pure ?_
  refine ⟨hdraft.known_eq, hdraft.refers, ?_⟩
  simp only [Section.inlined, hdraft.declarations_eq, hdraft.lines_eq]
  rfl

/-- The sections of the script that shares conditions, beside those of the script that does
not. -/
structure HoistsAll (earlier : List GuardVariable) (hoisted plain : List Section) : Prop where
  /-- The variables are numbered from one on. -/
  known_eq : ∃ codes, earlier ++ declarations hoisted = numbered codes
  /-- Every line refers to variables declared before it. -/
  refers : RefersBack earlier hoisted
  /-- Replacing the references makes the other sections. -/
  sections_eq : plain = hoisted.map (·.inlined (earlier ++ declarations hoisted))

/-- One more section comes before the others. -/
theorem HoistsSection.cons {first plainFirst : Section × List String}
    {rest plainRest : List Section} (hfirst : HoistsSection earlier first plainFirst)
    (hrest : HoistsAll (earlier ++ first.1.declarations) rest plainRest) :
    HoistsAll earlier (first.1 :: rest) (plainFirst.1 :: plainRest) := by
  obtain ⟨part, codes⟩ := first
  obtain ⟨plainPart, others⟩ := plainFirst
  obtain ⟨hknown, hrefers, hsection⟩ := hfirst
  dsimp only at hknown hrefers hsection hrest ⊢
  rw [← hknown] at hrefers hsection
  have hkept : part.inlined (earlier ++ part.declarations ++ declarations rest) = plainPart := by
    rw [hsection, Section.inlined, Section.inlined, map_inlined_append hrefers]
  refine ⟨?_, ⟨hrefers, hrest.refers⟩, ?_⟩
  · rw [declarations_cons]
    exact hrest.known_eq
  · rw [declarations_cons, List.map_cons, hkept, ← hrest.sections_eq]

/-- The sections of several commands are the same in both scripts. -/
theorem inStep_sections (scopes : List Scope) (hknown : earlier = numbered codes)
    (others : List String) : InStep (HoistsAll earlier)
      (sections codes (scopes.map (·.withInline false)))
      (sections others (scopes.map (·.withInline true))) := by
  induction scopes generalizing earlier codes others with
  | nil => exact inStep_pure ⟨⟨codes, by rw [hknown]; exact List.append_nil _⟩, trivial, rfl⟩
  | cons scope rest ih =>
    rw [List.map_cons, List.map_cons, sections, sections]
    by_cases hempty : scope.isEmpty
    · rw [if_pos (scope.isEmpty_withInline.trans hempty),
        if_pos (scope.isEmpty_withInline.trans hempty)]
      exact ih hknown others
    · rw [if_neg (scope.isEmpty_withInline ▸ hempty), if_neg (scope.isEmpty_withInline ▸ hempty)]
      refine (inStep_commandSection hknown others).bind fun _ _ hpart => ?_
      exact (ih hpart.known_eq _).bind fun _ _ hrest => inStep_pure (hpart.cons hrest)

/-! ## Scripts -/

/-- The sections of a script, with what came up while they were written. -/
def written (tree : CommandTree) (config : Config) : Logged (List Section × EmitState) :=
  Emit.run (helpers tree.programName) (sections [] (tree.walk.map (tree.scope config)))

/-- The script that sections make up. -/
def layout (tree : CommandTree) (config : Config) (state : EmitState) (parts : List Section) :
    String :=
  assemble ([generationNotice] ++ includedSections config ++ state.helpers.code ++
    [registration tree] ++ parts.map (·.render (Text.escapeFish tree.programName)) ++
    modelineSection config .fish)

/-- A script is laid out from its sections. -/
theorem script_eq (tree : CommandTree) (config : Config) : script tree config =
    written tree config >>= fun result => pure (layout tree config result.2 result.1) :=
  rfl

/-- The sections of both scripts are the same. -/
theorem inStep_written (tree : CommandTree) (config : Config) :
    InStep (fun hoisted plain => HoistsAll [] hoisted.1 plain.1 ∧ hoisted.2 = plain.2)
      (written tree (config.withInline false)) (written tree (config.withInline true)) := by
  have hscopes : ∀ inline, tree.walk.map (tree.scope (config.withInline inline)) =
      (tree.walk.map (tree.scope config)).map (·.withInline inline) := fun inline => by
    rw [List.map_map]
    exact List.map_congr_left fun id _ => tree.scope_withInline config inline id
  have hsections := inStep_sections (tree.walk.map (tree.scope config))
    (show [] = numbered [] from rfl) []
  rw [written, written, hscopes, hscopes]
  exact hsections.run (helpers tree.programName)

/-- Every line refers to one of all variables. -/
theorem RefersBack.refers {parts : List Section} (hrefers : RefersBack earlier parts) :
    ∀ part ∈ parts, ∀ line ∈ part.lines,
      line.condition.Refers (earlier ++ declarations parts) := by
  induction parts generalizing earlier with
  | nil => exact List.forall_mem_nil _
  | cons first rest ih =>
    rw [declarations_cons]
    refine List.forall_mem_cons.mpr ⟨fun line hline => ?_, ih hrefers.2⟩
    exact (hrefers.1 line hline).append _

/-- A variable is the one with its number. -/
theorem find?_of_mem_numbered {guard : GuardVariable} (hguard : guard ∈ numbered codes) :
    (numbered codes).find? (·.number == guard.number) = some guard := by
  obtain ⟨entry, hentry, rfl⟩ := List.mem_map.mp hguard
  exact find?_numbered (List.mem_zipIdx_iff_getElem?.mp hentry)

/-- In the text of a line, the argument that refers to a variable gives way to what follows the
name of the variable in the text of its declaration. -/
theorem replaced_inlined (program : String) (hrefers : line.condition.Refers (numbered codes)) :
    line.Replaced program (numbered codes) (line.inlined (numbered codes)) := by
  obtain ⟨condition, arguments⟩ := line
  rcases hrefers with hsame | ⟨guard, hguard, hsame⟩
  · obtain rfl : condition = .always := hsame
    exact .inl ⟨rfl, rfl⟩
  · obtain rfl : condition = .shared guard.number := hsame
    refine .inr ⟨guard, hguard, Text.escapeFish guard.code,
      if arguments.isEmpty then "" else " " ++ arguments, rfl, ?_, ?_⟩
    · simp only [CompleteLine.render, LineCondition.render, String.append_assoc]
    · rw [CompleteLine.inlined, LineCondition.inlined, find?_of_mem_numbered hguard]
      simp only [CompleteLine.render, LineCondition.render, String.append_assoc]

/-- The sections of the script that shares conditions, out of which the script that does not is
made by replacing every reference. -/
structure IsHoisted (tree : CommandTree) (config : Config) (parts : List Section)
    (state : EmitState) : Prop where
  /-- The sections are those that are written. -/
  written_eq : (written tree (config.withInline false)).outcome.2 = .ok (parts, state)
  /-- The sections make up the script that shares conditions. -/
  shared_eq : (tree.script .fish (config.withInline false)).outcome.2 =
    .ok (layout tree config state parts)
  /-- The sections without declarations and references make up the other script. -/
  inline_eq : (tree.script .fish (config.withInline true)).outcome.2 =
    .ok (layout tree config state (parts.map (·.inlined (declarations parts))))
  /-- The variables are numbered in the order of their declarations. -/
  numbers_eq : (declarations parts).map (·.number) = List.range' 1 (declarations parts).length
  /-- Every line refers to variables that are declared before it. -/
  refersBack : RefersBack [] parts
  /-- Replacing a reference puts what follows the variable's name in its declaration. -/
  replaced : ∀ part ∈ parts, ∀ line ∈ part.lines,
    line.Replaced (Text.escapeFish tree.programName) (declarations parts)
      (line.inlined (declarations parts))

end Fish

namespace CommandTree

open Fish

/-- A script for fish is written if all conditions are compiled where they are declared and the
sections are written. -/
theorem script_fish_eq_ok {text : String} : (tree.script .fish config).outcome.2 = .ok text ↔
    tree.checkConditions config = .ok () ∧ ∃ parts state,
      (written tree config).outcome.2 = .ok (parts, state) ∧
        layout tree config state parts = text := by
  have hscript : tree.script .fish config =
      Logged.ofExcept (tree.checkConditions config) >>= fun _ => Fish.script tree config := rfl
  rw [hscript, Logged.outcome_ofExcept_bind_eq_ok, script_eq, Logged.outcome_map]
  simp only [map_eq_ok, Prod.exists]

/-- The scripts for fish that share conditions and that do not are both written, and replacing
every reference to a variable by what the variable holds makes one of them the other. -/
theorem exists_isHoisted {text : String}
    (hscript : (tree.script .fish (config.withInline inline)).outcome.2 = .ok text) :
    ∃ parts state, IsHoisted tree config parts state := by
  obtain ⟨hchecked, parts, state, hparts, -⟩ := script_fish_eq_ok.mp hscript
  rw [checkConditions_withInline] at hchecked
  rcases (inStep_written tree config).outcome with
    ⟨⟨hoisted, after⟩, ⟨plain, _⟩, hhoisted, hplain, hall, rfl⟩ | ⟨error, hhoisted, hplain⟩
  · obtain ⟨⟨codes, hknown⟩, hrefers, rfl⟩ := hall
    rw [List.nil_append] at hknown
    refine ⟨hoisted, after, ?_, ?_, ?_, ?_, hrefers, ?_⟩
    · exact hhoisted
    · exact script_fish_eq_ok.mpr ⟨hchecked, hoisted, after, hhoisted, rfl⟩
    · exact script_fish_eq_ok.mpr ⟨hchecked, _, after, hplain, rfl⟩
    · rw [hknown, map_number_numbered, numbered, List.length_map, List.length_zipIdx]
    · intro part hpart line hline
      have hline_refers := hrefers.refers part hpart line hline
      rw [List.nil_append, hknown] at hline_refers
      rw [hknown]
      exact replaced_inlined _ hline_refers
  · -- Neither script is written, which the premise excludes.
    cases inline with
    | false => rw [hhoisted] at hparts; cases hparts
    | true => rw [hplain] at hparts; cases hparts

/-- The premise holds of a subcommand that inherits a condition; the lines of the program and of
the subcommand need five variables. -/
theorem exists_isHoisted_tracing :
    let tree := withHeir (tracing "--verbose") []
    (∃ text, (tree.script .fish (Config.withInline {} false)).outcome.2 = .ok text) ∧
      ∃ parts state, IsHoisted tree {} parts state ∧ (declarations parts).length = 5 := by
  have hbuilt : (withHeir (tracing "--verbose") []).Built :=
    built_withHeir (pairwise_tracing "--verbose") .nil
  obtain ⟨text, hscript⟩ := (hbuilt.wellFormed.exists_script_iff_checks .fish
    (Config.withInline {} false)).mpr ⟨rfl, by with_unfolding_all rfl⟩
  obtain ⟨parts, state, hhoisted⟩ := exists_isHoisted hscript
  have hlength : ((written (withHeir (tracing "--verbose") [])
      (Config.withInline {} false)).outcome.2.toOption.map
      fun result => (declarations result.1).length) = some 5 := by decide +kernel
  rw [hhoisted.written_eq] at hlength
  exact ⟨⟨text, hscript⟩, parts, state, hhoisted, Option.some.inj hlength⟩

end CommandTree
end ShellCompletion
