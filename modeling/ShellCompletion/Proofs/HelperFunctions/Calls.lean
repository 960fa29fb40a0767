import Mathlib.Data.List.Induction
import ShellCompletion.Proofs.HelperFunctions

/-!
# Calls on helper functions

The functions known in advance and those made up from hints share their names. A function that is
made up gets a name that no other one has, but the function for a key always gets the name for
the key. So a made-up function can be in the way of a key: it is found under the key, or it has
the name for the key. If none is, every name that was given out is that of one function, with the
body that was asked for.
-/

namespace ShellCompletion

/-- A call on the helper functions of a script. -/
inductive HelperCall where
  /-- A function becomes known in advance. -/
  | define (key body : String)
  /-- The function for a key is asked for. -/
  | use (key : String)
  /-- A function with a body is asked for, with a name from a hint. -/
  | generate (hint body : String)
deriving Repr, DecidableEq

namespace HelperCall

/-- The name that the call gives, and the helper functions after it. -/
def perform (helpers : Helpers) : HelperCall → Option String × Helpers
  | define key body => (none, helpers.define key body)
  | use key => helpers.use key
  | generate hint body => (some (helpers.generate hint body).1, (helpers.generate hint body).2)

/-- The body that the call gives to a key. -/
def definitionOf? (key : String) : HelperCall → Option String
  | define other body => if other = key then some (Text.trim body) else none
  | _ => none

/-- The body in the first definition of a key. -/
def firstDefinition? (calls : List HelperCall) (key : String) : Option String :=
  calls.findSome? (definitionOf? key)

/-- The body of the function that the call asks for, after other calls. -/
def requested? (before : List HelperCall) : HelperCall → Option String
  | define _ _ => none
  | use key => firstDefinition? before key
  | generate _ body => some (Text.trim body)

end HelperCall

/-- Whether the function was made up, so that it is found under its own name. -/
def Helper.IsMadeUp (helper : Helper) : Prop :=
  helper.key = helper.name

namespace Helpers

/-- The helper functions after calls in a row. -/
def performAll (helpers : Helpers) (calls : List HelperCall) : Helpers :=
  calls.foldl (fun helpers call => (call.perform helpers).2) helpers

/-- Exactly one function has the name, and it has the body. -/
def Denotes (helpers : Helpers) (name body : String) : Prop :=
  ∃ key, helpers.used.filter (·.name == name) = [⟨key, name, body⟩]

/-- A made-up function is in the way of the function for a key. -/
inductive Obstructed (helpers : Helpers) (key : String) : Prop where
  /-- The made-up function is found under the key, but has not the body of the key. -/
  | body {helper : Helper} (hmade : helper.IsMadeUp)
      (hfound : helpers.used.find? (·.key == key) = some helper)
      (hbody : helpers.definition? key ≠ some helper.body)
  /-- The function for the key comes into use, but the made-up function has its name. -/
  | name {helper : Helper} (hmade : helper.IsMadeUp) (hmem : helper ∈ helpers.used)
      (hname : helper.name = helpers.nameFor key)
      (hfree : ∀ other ∈ helpers.used, other.key ≠ key)
      (hdefined : helpers.definition? key ≠ none)

variable {helpers start : Helpers} {helper : Helper} {before calls more : List HelperCall}
  {call : HelperCall} {key name body : String}

/-! ## One call -/

/-- What a call does: it gives no name and uses no function, it gives the name of a function in
use, or it gives the name of a function that comes into use. -/
inductive Performs (helpers : Helpers) : HelperCall → Option String → Helpers → Prop where
  /-- A function becomes known. -/
  | define (key body : String) : Performs helpers (.define key body) none (helpers.define key body)
  /-- A key is not known. -/
  | unknown (key : String) : Performs helpers (.use key) none helpers
  /-- A function is found under the key. -/
  | known {key : String} {helper : Helper}
      (hfound : helpers.used.find? (·.key == key) = some helper) :
      Performs helpers (.use key) (some helper.name) helpers
  /-- The function for the key comes into use. -/
  | first {key body : String} (hfree : ∀ helper ∈ helpers.used, helper.key ≠ key)
      (hbody : helpers.definition? key = some body) :
      Performs helpers (.use key) (some (helpers.nameFor key))
        (helpers.add ⟨key, helpers.nameFor key, body⟩)
  /-- A function in use has the body. -/
  | same {hint body : String} {helper : Helper} (hmem : helper ∈ helpers.used)
      (hbody : helper.body = Text.trim body) :
      Performs helpers (.generate hint body) (some helper.name) helpers
  /-- A made-up function comes into use. -/
  | made {hint body name : String} (hname : name ∉ helpers.names) :
      Performs helpers (.generate hint body) (some name)
        (helpers.add ⟨name, name, Text.trim body⟩)

/-- Every call does one of these things. -/
theorem performs (helpers : Helpers) (call : HelperCall) :
    Performs helpers call (call.perform helpers).1 (call.perform helpers).2 := by
  cases call with
  | define key body => exact .define key body
  | use key =>
    rw [HelperCall.perform]
    rcases huse : helpers.use key with ⟨_ | name, after⟩
    · rw [eq_of_use_eq_none huse]
      exact .unknown key
    · rcases use_cases huse with ⟨rfl, helper, hfound, rfl⟩ | ⟨hfree, rfl, body, hbody, rfl⟩
      · exact .known hfound
      · exact .first hfree hbody
  | generate hint body =>
    rw [HelperCall.perform]
    rcases hgenerate : helpers.generate hint body with ⟨name, after⟩
    rcases generate_cases hgenerate with ⟨rfl, helper, hmem, rfl, hbody⟩ | ⟨rfl, rfl⟩
    · exact .same hmem hbody
    · exact .made (Text.fresh_notMem _ _)

/-- Every function in use is made up, or has the name for its key and the body of its key. -/
def Kept (helpers : Helpers) : Prop :=
  ∀ helper ∈ helpers.used, helper.IsMadeUp ∨
    helper.name = helpers.nameFor helper.key ∧ helpers.definition? helper.key = some helper.body

namespace Performs

variable {name? : Option String} {after : Helpers}

/-- Functions in use stay as they are, and names begin as before. -/
theorem keeps (hcall : Performs helpers call name? after) :
    helpers.used <+: after.used ∧ after.start = helpers.start ∧ after.style = helpers.style := by
  cases hcall with
  | first => exact ⟨List.prefix_append _ _, rfl, rfl⟩
  | made => exact ⟨List.prefix_append _ _, rfl, rfl⟩
  | _ => exact ⟨List.prefix_refl _, rfl, rfl⟩

/-- The first definition of a key counts. -/
theorem definition?_eq (hcall : Performs helpers call name? after) (key : String) :
    after.definition? key = (helpers.definition? key).or (call.definitionOf? key) := by
  cases hcall with
  | define other body =>
    rw [definition?, Helpers.define, List.find?_append, Option.map_or, HelperCall.definitionOf?]
    by_cases hkey : other = key <;> simp [definition?, hkey]
  | _ => exact (Option.or_none).symm

/-- A call keeps that functions are made up or belong to their keys. -/
theorem kept (hcall : Performs helpers call name? after) (hkept : helpers.Kept) : after.Kept := by
  have hold : ∀ helper ∈ helpers.used, helper.IsMadeUp ∨
      helper.name = after.nameFor helper.key ∧ after.definition? helper.key = some helper.body := by
    intro helper hmem
    refine (hkept helper hmem).imp_right fun ⟨hname, hbody⟩ => ⟨?_, ?_⟩
    · rw [hname, nameFor, nameFor, hcall.keeps.2.1]
    · rw [hcall.definition?_eq, hbody, Option.some_or]
  cases hcall with
  | first hfree hbody =>
    exact List.forall_mem_append.mpr ⟨hold, List.forall_mem_singleton.mpr (.inr ⟨rfl, hbody⟩)⟩
  | made hname => exact List.forall_mem_append.mpr ⟨hold, List.forall_mem_singleton.mpr (.inl rfl)⟩
  | _ => exact hold

/-- If no made-up function is in its way, a call brings no second function of one name into use. -/
theorem nodup_names (hcall : Performs helpers call name? after) (hkept : helpers.Kept)
    (hclear : ∀ key, call = .use key → ¬ helpers.Obstructed key) (hnodup : helpers.names.Nodup) :
    after.names.Nodup := by
  have hadd : ∀ {helper : Helper}, helper.name ∉ helpers.names →
      (helpers.add helper).names.Nodup := by
    intro helper hnew
    rw [names_add]
    exact hnodup.append (List.nodup_singleton _) (List.disjoint_singleton.mpr hnew)
  cases hcall with
  | @first key body hfree hbody =>
    refine hadd fun hmem => ?_
    obtain ⟨other, hother, hname⟩ := List.mem_map.mp hmem
    rcases hkept other hother with hmade | ⟨hown, -⟩
    · exact hclear key rfl (.name hmade hother hname hfree (by simp [hbody]))
    · exact hfree other hother (helpers.nameFor_injective (hown.symm.trans hname))
  | made hname => exact hadd hname
  | _ => exact hnodup

/-- If no made-up function is in its way, a call gives the name of a function with the body that
it asks for. -/
theorem exists_requested (hcall : Performs helpers call (some name) after) (hkept : helpers.Kept)
    (hclear : ∀ key, call = .use key → ¬ helpers.Obstructed key)
    (hbefore : ∀ key, helpers.definition? key = HelperCall.firstDefinition? before key) :
    ∃ helper ∈ after.used, helper.name = name ∧ call.requested? before = some helper.body := by
  cases hcall with
  | @known key helper hfound =>
    refine ⟨helper, List.mem_of_find?_eq_some hfound, rfl, ?_⟩
    rw [HelperCall.requested?, ← hbefore]
    have hkey : helper.key = key := by simpa using List.find?_some hfound
    rcases hkept helper (List.mem_of_find?_eq_some hfound) with hmade | ⟨-, hbody⟩
    · by_contra hother
      exact hclear key rfl (.body hmade hfound hother)
    · rw [← hkey, hbody]
  | first hfree hbody =>
    refine ⟨_, List.mem_append_right _ (List.mem_singleton_self _), rfl, ?_⟩
    rw [HelperCall.requested?, ← hbefore, hbody]
  | same hmem hbody => exact ⟨_, hmem, rfl, congrArg some hbody.symm⟩
  | made hname => exact ⟨_, List.mem_append_right _ (List.mem_singleton_self _), rfl, rfl⟩

end Performs

/-! ## Calls in a row -/

/-- One more call is performed after the others. -/
theorem performAll_append_singleton (helpers : Helpers) (calls : List HelperCall)
    (call : HelperCall) : helpers.performAll (calls ++ [call]) =
      (call.perform (helpers.performAll calls)).2 := by
  rw [performAll, List.foldl_append]
  rfl

/-- Functions in use stay as they are during further calls. -/
theorem used_prefix_performAll (helpers : Helpers) (calls more : List HelperCall) :
    (helpers.performAll calls).used <+: (helpers.performAll (calls ++ more)).used ∧
      (helpers.performAll (calls ++ more)).style = (helpers.performAll calls).style := by
  induction more using List.reverseRecOn with
  | nil =>
    rw [List.append_nil]
    exact ⟨List.prefix_refl _, rfl⟩
  | append_singleton more call ih =>
    rw [← List.append_assoc, performAll_append_singleton]
    obtain ⟨hused, -, hstyle⟩ := (performs (helpers.performAll (calls ++ more)) call).keeps
    exact ⟨ih.1.trans hused, hstyle.trans ih.2⟩

/-- What is in use after one of the calls stays in use. -/
theorem used_prefix_perform {after : List HelperCall} (hcalls : calls = before ++ call :: after) :
    (call.perform (helpers.performAll before)).2.used <+: (helpers.performAll calls).used := by
  rw [hcalls, List.append_cons, ← performAll_append_singleton]
  exact (used_prefix_performAll helpers (before ++ [call]) after).1

/-- After calls that begin without any function, every function is made up or belongs to its key,
and the keys have the bodies of their first definitions. -/
theorem kept_performAll (program : String) (style : FunctionStyle) (calls : List HelperCall) :
    ((new program style).performAll calls).Kept ∧
      ∀ key, ((new program style).performAll calls).definition? key =
        HelperCall.firstDefinition? calls key := by
  induction calls using List.reverseRecOn with
  | nil => exact ⟨List.forall_mem_nil _, fun key => rfl⟩
  | append_singleton calls call ih =>
    have hcall := performs ((new program style).performAll calls) call
    rw [performAll_append_singleton]
    refine ⟨hcall.kept ih.1, fun key => ?_⟩
    rw [hcall.definition?_eq, ih.2, HelperCall.firstDefinition?, HelperCall.firstDefinition?,
      List.findSome?_append]
    cases call <;> simp [HelperCall.definitionOf?]

/-- If no made-up function is in the way of a call, all functions have different names. -/
theorem nodup_names_performAll {program : String} {style : FunctionStyle}
    (hclear : ∀ before key after, calls = before ++ .use key :: after →
      ¬ ((new program style).performAll before).Obstructed key) :
    ((new program style).performAll calls).names.Nodup := by
  induction calls using List.reverseRecOn with
  | nil => exact List.nodup_nil
  | append_singleton calls call ih =>
    rw [performAll_append_singleton]
    refine (performs _ call).nodup_names (kept_performAll program style calls).1 ?_ (ih ?_)
    · rintro key rfl
      exact hclear calls key [] rfl
    · rintro before key after rfl
      exact hclear before key (after ++ [call]) (by simp)

/-- A function in use is denoted by its name if all functions have different names. -/
theorem denotes_of_mem (hnodup : helpers.names.Nodup) (hmem : helper ∈ helpers.used) :
    helpers.Denotes helper.name helper.body := by
  obtain ⟨before, after, hused⟩ := List.append_of_mem hmem
  rw [names, hused, List.map_append, List.map_cons, List.nodup_middle, List.nodup_cons,
    List.mem_append, not_or] at hnodup
  have hnone : ∀ {list : List Helper}, helper.name ∉ list.map (·.name) →
      list.filter (·.name == helper.name) = [] := by
    intro list hother
    refine List.filter_eq_nil_iff.mpr fun other hmem hsame => hother ?_
    exact List.mem_map.mpr ⟨other, hmem, beq_iff_eq.mp hsame⟩
  refine ⟨helper.key, ?_⟩
  simp [hused, hnone hnodup.1.1, hnone hnodup.1.2]

/-- What a name denotes is the only function in use with the name. -/
theorem Denotes.body_eq (hdenotes : helpers.Denotes name body) (hmem : helper ∈ helpers.used)
    (hname : helper.name = name) : helper.body = body := by
  obtain ⟨key, hfilter⟩ := hdenotes
  have hfound : helper ∈ helpers.used.filter (·.name == name) :=
    List.mem_filter.mpr ⟨hmem, beq_iff_eq.mpr hname⟩
  rw [hfilter, List.mem_singleton] at hfound
  rw [hfound]

/-- Nothing is denoted by a name that a function in use and one behind it have. -/
theorem not_denotes_of_prefix {other : Helper} (hmem : helper ∈ helpers.used)
    (hsame : helper.name = other.name)
    (hbegins : helpers.used ++ [other] <+: start.used) : ¬ start.Denotes other.name body := by
  rintro ⟨key, hfilter⟩
  have hlength := (hbegins.filter (·.name == other.name)).length_le
  have hpos : 0 < (helpers.used.filter (·.name == other.name)).length :=
    List.length_pos_of_mem (List.mem_filter.mpr ⟨hmem, beq_iff_eq.mpr hsame⟩)
  have hlast : ([other].filter (·.name == other.name)).length = 1 := by simp
  rw [hfilter, List.filter_append, List.length_append, hlast, List.length_singleton] at hlength
  omega

/-- If a made-up function is in the way of the function for a key, then a name is given for the
key, but it never denotes a function with the body of the key. -/
theorem Obstructed.exists_name {final : Helpers} (hobstructed : helpers.Obstructed key)
    (hfinal : (helpers.use key).2.used <+: final.used) :
    ∃ name, (helpers.use key).1 = some name ∧
      ∀ body, helpers.definition? key = some body → ¬ final.Denotes name body := by
  cases hobstructed with
  | @body helper hmade hfound hbody =>
    rw [use_of_find? hfound] at hfinal ⊢
    refine ⟨helper.name, rfl, fun body hdefinition hdenotes => hbody ?_⟩
    rw [hdefinition, hdenotes.body_eq (hfinal.subset (List.mem_of_find?_eq_some hfound)) rfl]
  | name hmade hmem hname hfree hdefined =>
    obtain ⟨first, hfirst⟩ := Option.ne_none_iff_exists'.mp hdefined
    rw [use_of_definition? hfree hfirst] at hfinal ⊢
    exact ⟨_, rfl, fun body _ => not_denotes_of_prefix hmem hname hfinal⟩

/-- Every name that one of the calls gives denotes in the end the function that was asked for. -/
def AllDenote (helpers : Helpers) (calls : List HelperCall) : Prop :=
  ∀ before call after name, calls = before ++ call :: after →
    (call.perform (helpers.performAll before)).1 = some name →
      ∃ body, call.requested? before = some body ∧
        (helpers.performAll calls).Denotes name body

/-- All names that calls give denote the functions that were asked for exactly if no made-up
function is in the way when a function is asked for by its key. What is in the code stays there,
in its place, whatever calls follow. -/
theorem allDenote_iff (program : String) (style : FunctionStyle) (calls : List HelperCall) :
    ((new program style).AllDenote calls ↔
      ∀ before key after, calls = before ++ .use key :: after →
        ¬ ((new program style).performAll before).Obstructed key) ∧
      ∀ more, ((new program style).performAll calls).code <+:
        ((new program style).performAll (calls ++ more)).code := by
  refine ⟨⟨fun hall before key after hcalls hobstructed => ?_,
    fun hclear before call after name hcalls hname => ?_⟩, fun more => ?_⟩
  · obtain ⟨name, hname, hnone⟩ := hobstructed.exists_name (used_prefix_perform hcalls)
    obtain ⟨body, hrequested, hdenotes⟩ := hall before (.use key) after name hcalls hname
    rw [HelperCall.requested?, ← (kept_performAll program style before).2] at hrequested
    exact hnone body hrequested hdenotes
  · obtain ⟨hkept, hdefinition⟩ := kept_performAll program style before
    have hcall := performs ((new program style).performAll before) call
    rw [hname] at hcall
    have hcallClear : ∀ key, call = .use key →
        ¬ ((new program style).performAll before).Obstructed key := by
      rintro key rfl
      exact hclear before key after hcalls
    obtain ⟨helper, hmem, rfl, hrequested⟩ := hcall.exists_requested hkept hcallClear hdefinition
    exact ⟨helper.body, hrequested, denotes_of_mem (nodup_names_performAll hclear)
      ((used_prefix_perform hcalls).subset hmem)⟩
  · obtain ⟨hused, hstyle⟩ := used_prefix_performAll (new program style) calls more
    rw [code, code, hstyle]
    exact hused.map _

/-- Calls of which the first one makes a function up that has the name for a key that is used
later. -/
def clashingCalls : List HelperCall :=
  [.generate "w" "b1", .define "w" "b2", .use "w"]

/-- Two functions of the code have the name that the first and the last of these calls give. -/
theorem not_allDenote_of_clash :
    ((new "p" .posix).performAll clashingCalls).code =
        ["_p_w() \x7b\n  b1\n\x7d", "_p_w() \x7b\n  b2\n\x7d"] ∧
      ¬ (new "p" .posix).AllDenote clashingCalls := by
  refine ⟨by decide +kernel, fun hall => ?_⟩
  obtain ⟨body, -, key, hfilter⟩ := hall [.generate "w" "b1", .define "w" "b2"] (.use "w") [] "_p_w"
    rfl (by decide +kernel)
  have hlength := congrArg List.length hfilter
  have htwo : (((new "p" .posix).performAll clashingCalls).used.filter
    (·.name == "_p_w")).length = 2 := by decide +kernel
  rw [htwo] at hlength
  cases hlength

end Helpers
end ShellCompletion
