import ShellCompletion.Proofs.CommandTree.Counterparts
import ShellCompletion.Proofs.Document.RoundTrip
import ShellCompletion.Proofs.Script.Compilation
import ShellCompletion.Proofs.Specification

/-!
# Scripts of trees that differ in numbers only

Numbers of commands are keys while a script is written: of function names, and of the commands
that a walk passes. The scope of a command and the name of its function do not depend on them,
and so neither does the script.
-/

namespace ShellCompletion.CommandTree

/-- A name is found under a new key that no other old key is changed to. -/
theorem lookup_map_key {number : Nat → Nat} {names : List (Nat × String)} {id : Nat}
    (hkeys : ∀ entry ∈ names, number entry.1 = number id → entry.1 = id) :
    (names.map (Prod.map number fun name => name)).lookup (number id) = names.lookup id := by
  induction names with
  | nil => rfl
  | cons entry rest ih =>
    obtain ⟨key, name⟩ := entry
    obtain ⟨hkey, hrest⟩ := List.forall_mem_cons.mp hkeys
    rw [List.map_cons, Prod.map_apply, List.lookup_cons, List.lookup_cons, ih hrest]
    by_cases hid : id = key
    · subst hid
      rw [beq_self_eq_true, beq_self_eq_true]
    · have hnumber : number id ≠ number key := fun h => hid (hkey h.symm).symm
      rw [beq_false_of_ne hid, beq_false_of_ne hnumber]

/-- There are functions for commands of the tree only. -/
theorem WellFormed.lt_size_of_mem_functionNames {tree : CommandTree} (hwf : tree.WellFormed)
    {entry : Nat × String} (hentry : entry ∈ tree.functionNames) : entry.1 < tree.size := by
  rw [← hwf.mem_walk, ← map_fst_functionNames]
  exact List.mem_map_of_mem hentry

namespace Renumbers

variable {tree other : CommandTree} {number : Nat → Nat} {config : Config} {id : Nat}

section Scopes

variable (hnumber : tree.Renumbers other number) (hwf : tree.WellFormed)
  (hother : other.WellFormed)
include hnumber hwf hother

/-- Corresponding commands have the same place. -/
theorem place (hid : id < tree.size) : other.place (number id) = tree.place id := by
  rcases Nat.eq_zero_or_pos id with rfl | hpos
  · rw [hnumber.root, CommandTree.place, CommandTree.place, hother.parent_root, hwf.parent_root]
  · obtain ⟨parent, hlt, place, hplace⟩ := hwf.exists_place hpos hid
    have hplace_other : (other.children (number parent))[place]? = some (number id) := by
      rw [hnumber.children parent (Nat.lt_trans hlt hid), List.getElem?_map, hplace]
      rfl
    rw [hother.place_eq hplace_other, hwf.place_eq hplace]

/-- Corresponding commands are the same level. -/
theorem level (hid : id < tree.size) : other.level (number id) = tree.level id := by
  have hsubcommands : (other.children (number id)).map other.command =
      (tree.children id).map tree.command := by
    rw [hnumber.children id hid, List.map_map]
    exact List.map_congr_left fun child hchild =>
      hnumber.command child (hwf.lt_size_of_mem hchild)
  rw [CommandTree.level, CommandTree.level, hnumber.command id hid, hsubcommands,
    hnumber.place hwf hother hid]

/-- Corresponding commands have the same scope. -/
theorem scope (hid : id < tree.size) :
    other.scope config (number id) = tree.scope config id := by
  have houter : (other.ancestors (number id)).map other.level =
      (tree.ancestors id).map tree.level := by
    rw [hnumber.ancestors id hid, List.map_map]
    refine List.map_congr_left fun ancestor hancestor => ?_
    have hlt := lt_of_mem_ancestors hancestor
    exact hnumber.level hwf hother (Nat.lt_trans hlt hid)
  rw [CommandTree.scope, CommandTree.scope, hnumber.level hwf hother hid, houter]

/-- The scopes come in the same order. -/
theorem map_scope_walk : other.walk.map (other.scope config) =
    tree.walk.map (tree.scope config) := by
  rw [hnumber.walk hwf, List.map_map]
  exact List.map_congr_left fun id hid => hnumber.scope hwf hother (hwf.mem_walk.mp hid)

/-- The conditions of both trees are compiled, or those of none. -/
theorem checkConditions_eq_ok : other.checkConditions config = .ok () ↔
    tree.checkConditions config = .ok () := by
  simp only [CommandTree.checkConditions, forM_eq_ok, ids, List.mem_range]
  rw [hnumber.forall_lt_size hwf hother]
  refine forall₂_congr fun id hid => ?_
  rw [hnumber.scope hwf hother hid]

end Scopes

/-! ## Names of functions -/

section Names

variable (hnumber : tree.Renumbers other number) (hwf : tree.WellFormed)
include hnumber hwf

/-- The functions have the same names in the same order. -/
theorem functionNames :
    other.functionNames = tree.functionNames.map (Prod.map number fun name => name) := by
  have hbase : (tree.walk.map number).map other.baseFunctionName =
      tree.walk.map tree.baseFunctionName := by
    rw [List.map_map]
    refine List.map_congr_left fun id hid => ?_
    rw [Function.comp_apply, baseFunctionName, baseFunctionName,
      hnumber.path (hwf.mem_walk.mp hid)]
  rw [CommandTree.functionNames, CommandTree.functionNames, hnumber.walk hwf, hbase]
  exact List.zip_map_left

variable (hother : other.WellFormed)
include hother

/-- The functions of corresponding commands have the same name. -/
theorem functionName (hid : id < tree.size) :
    other.functionName (number id) = tree.functionName id := by
  have hlookup : other.functionNames.lookup (number id) = tree.functionNames.lookup id := by
    rw [hnumber.functionNames hwf]
    refine lookup_map_key fun entry hentry hsame => ?_
    exact hnumber.injective hwf hother (hwf.lt_size_of_mem_functionNames hentry) hid hsame
  rw [CommandTree.functionName, CommandTree.functionName, hlookup]

/-- The same functions are written. -/
theorem functions : other.functions config = tree.functions config := by
  change other.functionNames.map (fun entry => CommandFunction.mk (other.scope config entry.1)
      entry.2 ((other.children entry.1).map other.functionName)) =
    tree.functionNames.map fun entry => CommandFunction.mk (tree.scope config entry.1)
      entry.2 ((tree.children entry.1).map tree.functionName)
  rw [hnumber.functionNames hwf, List.map_map]
  refine List.map_congr_left fun entry hentry => ?_
  have hid := hwf.lt_size_of_mem_functionNames hentry
  have htargets : (other.children (number entry.1)).map other.functionName =
      (tree.children entry.1).map tree.functionName := by
    rw [hnumber.children entry.1 hid, List.map_map]
    exact List.map_congr_left fun child hchild =>
      hnumber.functionName hwf hother (hwf.lt_size_of_mem hchild)
  rw [Function.comp_apply, Prod.map_fst, Prod.map_snd, hnumber.scope hwf hother hid, htargets]

end Names

/-! ## Scripts -/

/-- The programs declare the same. -/
theorem command_root (hnumber : tree.Renumbers other number) (hwf : tree.WellFormed) :
    other.command 0 = tree.command 0 := by
  have hcommand := hnumber.command 0 hwf.size_pos
  rwa [hnumber.root] at hcommand

section Scripts

variable (hnumber : tree.Renumbers other number) (hwf : tree.WellFormed)
  (hother : other.WellFormed)
include hnumber hwf hother

/-- The programs have functions of the same name. -/
theorem functionName_root : other.functionName 0 = tree.functionName 0 := by
  have hname := hnumber.functionName hwf hother hwf.size_pos
  rwa [hnumber.root] at hname

/-- A script with functions is the same if the same writer puts it together. -/
theorem script_of_writer {writer otherWriter : FunctionWriter} (hsame : otherWriter = writer) :
    otherWriter.script other config = writer.script tree config := by
  rw [hsame, FunctionWriter.script, FunctionWriter.script, FunctionWriter.functions,
    FunctionWriter.functions, hnumber.functions hwf hother]

/-- The scripts for bash are the same. -/
theorem script_bash :
    (Bash.writer other).script other config = (Bash.writer tree).script tree config := by
  refine hnumber.script_of_writer hwf hother ?_
  rw [Bash.writer, Bash.writer, Bash.registration, Bash.registration,
    hnumber.functionName_root hwf hother, hnumber.command_root hwf, programName, programName,
    hnumber.command_root hwf]

/-- The scripts for zsh are the same. -/
theorem script_zsh : (Zsh.writer other config).script other config =
    (Zsh.writer tree config).script tree config := by
  refine hnumber.script_of_writer hwf hother ?_
  rw [Zsh.writer, Zsh.writer, Zsh.header, Zsh.header, Zsh.registration, Zsh.registration,
    hnumber.functionName_root hwf hother, hnumber.command_root hwf, programName, programName,
    hnumber.command_root hwf]

/-- The scripts for fish are the same. -/
theorem script_fish : Fish.script other config = Fish.script tree config := by
  rw [Fish.script, Fish.script, Fish.registration, Fish.registration, programName, programName,
    hnumber.command_root hwf, hnumber.map_scope_walk hwf hother]

/-- Where conditions are compiled, the same script is written. -/
theorem script (hchecked : tree.checkConditions config = .ok ()) (shell : Shell) :
    other.script shell config = tree.script shell config := by
  have hchecked_other := (hnumber.checkConditions_eq_ok hwf hother).mpr hchecked
  unfold CommandTree.script
  rw [hchecked, hchecked_other]
  cases shell with
  | bash => exact congrArg _ (funext fun _ => hnumber.script_bash hwf hother)
  | zsh => exact congrArg _ (funext fun _ => hnumber.script_zsh hwf hother)
  | fish => exact congrArg _ (funext fun _ => hnumber.script_fish hwf hother)

/-- The same scripts are written. -/
theorem script_eq_ok_iff (shell : Shell) (text : String) :
    (other.script shell config).outcome.2 = .ok text ↔
      (tree.script shell config).outcome.2 = .ok text := by
  constructor
  · intro hscript
    have hchecked := ((hother.exists_script_iff_checks shell config).mp ⟨text, hscript⟩).1
    rwa [hnumber.script hwf hother ((hnumber.checkConditions_eq_ok hwf hother).mp hchecked)]
      at hscript
  · intro hscript
    have hchecked := ((hwf.exists_script_iff_checks shell config).mp ⟨text, hscript⟩).1
    rwa [hnumber.script hwf hother hchecked]

end Scripts

/-! ## Checks of the structure -/

/-- Corresponding commands have the same fault. -/
theorem commandFault? (hnumber : tree.Renumbers other number) (hwf : tree.WellFormed)
    (hid : id < tree.size) (strict : Bool) :
    other.commandFault? strict (number id) = tree.commandFault? strict id := by
  have hpath : other.commandPath (number id) = tree.commandPath id := by
    rw [commandPath, commandPath, hnumber.path hid]
  have hname : other.nameFault? strict (number id) = tree.nameFault? strict id := by
    funext name
    rw [nameFault?, nameFault?, hpath]
  have hnames : ((other.children (number id)).flatMap fun child => (other.command child).names) =
      (tree.children id).flatMap fun child => (tree.command child).names := by
    rw [hnumber.children id hid, List.flatMap_map]
    refine List.flatMap_congr fun child hchild => ?_
    rw [hnumber.command child (hwf.lt_size_of_mem hchild)]
  simp only [CommandTree.commandFault?, siblingFault?, metavars, hpath, hname, hnames,
    hnumber.command id hid]

/-- A tree is accepted if operations build it and it has the commands of an accepted tree. -/
theorem accepted (hnumber : tree.Renumbers other number) (haccepted : tree.Accepted)
    (hbuilt : other.Built) : other.Accepted := by
  have hwf := haccepted.built.wellFormed
  refine ⟨hbuilt, checkStructure_eq_ok.mpr ?_⟩
  rw [hnumber.forall_lt_size hwf hbuilt.wellFormed]
  intro id hid
  rw [hnumber.commandFault? hwf hid]
  exact haccepted.commandFault?_eq_none hid

end Renumbers

/-- Trees that are the same have the same scripts, in whatever order their commands were added.
So a specification has the same scripts after it was exported and read again. -/
theorem script_eq_ok_iff_of_same (shell : Shell) (config : Config) :
    (∀ tree other : CommandTree, tree.Built → other.Built → tree.same other = true → ∀ code,
      (tree.script shell config).outcome.2 = .ok code ↔
        (other.script shell config).outcome.2 = .ok code) ∧
    ∀ (format : Format) (text : String) (tree : CommandTree),
      (parse format text).outcome.2 = .ok tree →
        (tree.toDocuments.mapM fun document =>
          CommandDocument.shape.read document.toJson.toData) = .ok tree.toDocuments ∧
        ∃ again, ofDocuments tree.toDocuments = .ok again ∧ again.Accepted ∧ ∀ code,
          (tree.script shell config).outcome.2 = .ok code ↔
            (again.script shell config).outcome.2 = .ok code := by
  constructor
  · intro tree other hbuilt hother hsame code
    have hwf := hbuilt.wellFormed
    have hnumber := renumbers_counterpart hsame hwf hother.wellFormed
    exact (hnumber.script_eq_ok_iff hwf hother.wellFormed shell code).symm
  · intro format text tree hparse
    obtain ⟨documents, hdocuments⟩ := exists_documents_of_ofText (ofText_of_parse hparse).1
    have htree := described_of_ofDocuments hdocuments
    have hwf := htree.built.wellFormed
    have hnumber := hwf.grows_readingOrder.renumbers_part hwf fun id hid =>
      hwf.mem_readingOrder.mpr hid
    have hagain := htree.ofDocuments_toDocuments_eq
    have hbuilt := (described_of_ofDocuments hagain).built
    refine ⟨tree.mapM_read_toJson_toDocuments, _, hagain, ?_, fun code => ?_⟩
    · exact hnumber.accepted (accepted_of_parse hparse) hbuilt
    · exact (hnumber.script_eq_ok_iff hwf hbuilt.wellFormed shell code).symm

/-- A program with a nested subcommand that was added before the last one. -/
def depthFirst : CommandTree :=
  ⟨#[{ command := { name := "git", slot := some {} }, children := [1, 3] },
    { command := { name := "remote", slot := some {} }, parent := some 0, children := [2] },
    { command := { name := "add" }, parent := some 1 },
    { command := { name := "push" }, parent := some 0 }]⟩

/-- The program whose nested subcommand was added last. -/
def breadthFirst : CommandTree :=
  ⟨#[{ command := { name := "git", slot := some {} }, children := [1, 2] },
    { command := { name := "remote", slot := some {} }, parent := some 0, children := [3] },
    { command := { name := "push" }, parent := some 0 },
    { command := { name := "add" }, parent := some 1 }]⟩

/-- Operations build the program depth first. -/
theorem built_depthFirst : depthFirst.Built := by
  have hremote := (Built.new "git").step (.addSubcommand 0 "remote" "" Nat.one_pos rfl)
  have hadd := hremote.step (.addSubcommand 1 "add" "" (by decide) rfl)
  exact hadd.step (.addSubcommand 0 "push" "" (by decide) rfl)

/-- Operations build the program breadth first. -/
theorem built_breadthFirst : breadthFirst.Built := by
  have hremote := (Built.new "git").step (.addSubcommand 0 "remote" "" Nat.one_pos rfl)
  have hpush := hremote.step (.addSubcommand 0 "push" "" (by decide) rfl)
  exact hpush.step (.addSubcommand 1 "add" "" (by decide) rfl)

/-- Both orders of adding the subcommands give the same scripts. -/
theorem script_eq_ok_iff_of_same_orders :
    depthFirst ≠ breadthFirst ∧ depthFirst.same breadthFirst = true ∧
      ∀ shell config code, (depthFirst.script shell config).outcome.2 = .ok code ↔
        (breadthFirst.script shell config).outcome.2 = .ok code := by
  have hsame : depthFirst.same breadthFirst = true := by decide +kernel
  refine ⟨by decide +kernel, hsame, fun shell config => ?_⟩
  exact (script_eq_ok_iff_of_same shell config).1 _ _ built_depthFirst built_breadthFirst hsame

end ShellCompletion.CommandTree
