import Mathlib.Data.List.Induction
import Mathlib.Data.List.Nodup
import ShellCompletion.Proofs.Spellings

/-!
# Spellings of groups

Each token belongs to the group in which it comes up first. A word is accepted for one group
at most, and stands for one of the tokens of that group.
-/

namespace ShellCompletion.Spellings

variable {groups : List (List String)} {tokens : List String} {token word : String}
  {place other minLength : Nat} {enabled : Bool}

/-! ## Tokens of a group -/

/-- The tokens of the group at a place that do not come up before, in this group or in an
earlier one. -/
def ownTokens (groups : List (List String)) (place : Nat) : List String :=
  (groups[place]?.getD []).eraseDups.filter fun token => token ∉ (groups.take place).flatten

/-- Of equal tokens, the first is kept. -/
theorem eraseDups_append_singleton (tokens : List String) (token : String) :
    (tokens ++ [token]).eraseDups =
      if token ∈ tokens then tokens.eraseDups else tokens.eraseDups ++ [token] := by
  rw [List.eraseDups_append]
  by_cases hthere : token ∈ tokens
  · simp [List.removeAll, hthere]
  · simp [List.removeAll, hthere, List.eraseDups_cons]

/-- No token is repeated where the first of equal ones is kept. -/
theorem nodup_eraseDups (tokens : List String) : tokens.eraseDups.Nodup := by
  induction tokens using List.reverseRecOn with
  | nil => exact List.nodup_nil
  | append_singleton tokens token ih =>
    rw [eraseDups_append_singleton]
    split
    · exact ih
    · rename_i hnew
      have hdisjoint : tokens.eraseDups.Disjoint [token] := by
        rw [List.disjoint_singleton, List.mem_eraseDups]
        exact hnew
      exact ih.append (List.nodup_singleton token) hdisjoint

/-- The tokens that are kept are those that were not seen, each once. -/
theorem newTokens_eq (seen tokens : List String) :
    newTokens seen tokens = tokens.eraseDups.filter fun token => token ∉ seen := by
  induction tokens using List.reverseRecOn with
  | nil => rfl
  | append_singleton tokens token ih =>
    have hstep : newTokens seen (tokens ++ [token]) =
        if seen.contains token || (newTokens seen tokens).contains token then newTokens seen tokens
        else newTokens seen tokens ++ [token] := List.foldl_append
    rw [hstep, eraseDups_append_singleton]
    by_cases hseen : token ∈ seen
    · by_cases hthere : token ∈ tokens <;> simp [hseen, hthere, ih]
    · by_cases hthere : token ∈ tokens
      · simp [hseen, hthere, ih]
      · simp [hseen, hthere, List.filter_append, ih]

/-- The tokens that a group keeps are those that were not seen and do not come up before. -/
theorem getElem?_distinctGroups (seen : List String) (groups : List (List String)) (place : Nat) :
    (distinctGroups seen groups)[place]?.getD [] = (groups[place]?.getD []).eraseDups.filter
      fun token => token ∉ seen ++ (groups.take place).flatten := by
  induction groups generalizing seen place with
  | nil => simp [distinctGroups]
  | cons tokens rest ih =>
    cases place with
    | zero => simp [distinctGroups, newTokens_eq]
    | succ place =>
      have hsame : ∀ token, token ∈ seen ++ newTokens seen tokens ++ (rest.take place).flatten ↔
          token ∈ seen ++ ((tokens :: rest).take (place + 1)).flatten := by
        intro token
        simp only [List.mem_append, mem_newTokens, List.take_succ_cons, List.flatten_cons]
        tauto
      rw [distinctGroups, List.getElem?_cons_succ, List.getElem?_cons_succ, ih]
      simp only [hsame]

/-- The tokens of a group are those of its own. -/
theorem groups_new (groups : List (List String)) (minLength : Nat) (enabled : Bool) (place : Nat) :
    (new groups minLength enabled).groups[place]?.getD [] = ownTokens groups place :=
  getElem?_distinctGroups [] groups place

/-- A token belongs to the first group in which it comes up. -/
theorem mem_ownTokens : token ∈ ownTokens groups place ↔ token ∈ groups[place]?.getD [] ∧
    ∀ earlier < place, token ∉ groups[earlier]?.getD [] := by
  have hmem : token ∈ (distinctGroups [] groups)[place]?.getD [] ↔
      token ∈ groups[place]?.getD [] ∧ token ∉ [] ∧
        ∀ earlier < place, token ∉ groups[earlier]?.getD [] := mem_distinctGroups
  rw [getElem?_distinctGroups] at hmem
  simpa [ownTokens] using hmem

/-- A group has each of its tokens once. -/
theorem nodup_ownTokens (groups : List (List String)) (place : Nat) :
    (ownTokens groups place).Nodup :=
  (nodup_eraseDups _).filter _

/-- No two groups have a token in common. -/
theorem eq_of_mem_ownTokens (hplace : token ∈ ownTokens groups place)
    (hother : token ∈ ownTokens groups other) : place = other := by
  obtain ⟨hplace_mem, hplace_first⟩ := mem_ownTokens.mp hplace
  obtain ⟨hother_mem, hother_first⟩ := mem_ownTokens.mp hother
  rcases Nat.lt_trichotomy place other with hlt | heq | hlt
  · exact absurd hplace_mem (hother_first place hlt)
  · exact heq
  · exact absurd hother_mem (hplace_first other hlt)

/-! ## Words for a group -/

/-- A word is accepted for a group if it is one of its tokens or, if abbreviations are on, a long
enough beginning of one that begins no token of another group. -/
theorem mem_wordsOf_iff : word ∈ (new groups minLength enabled).wordsOf place ↔
    word ∈ ownTokens groups place ∨
      enabled = true ∧ word ≠ "" ∧ minLength ≤ word.length ∧
        (∃ token ∈ ownTokens groups place, word ≠ token ∧ word.toList <+: token.toList) ∧
        ∀ other ≠ place, ∀ token ∈ ownTokens groups other, ¬ word.toList <+: token.toList := by
  have hown : ∀ place, (distinctGroups [] groups)[place]?.getD [] = ownTokens groups place :=
    fun place => groups_new groups minLength enabled place
  have hothers : (∀ token ∈ otherTokens (distinctGroups [] groups) place,
      ¬ word.toList <+: token.toList) ↔
        ∀ other ≠ place, ∀ token ∈ ownTokens groups other, ¬ word.toList <+: token.toList := by
    simp only [mem_otherTokens, hown]
    constructor
    · intro hnone other hne token htoken
      exact hnone token ⟨other, hne, htoken⟩
    · rintro hnone token ⟨other, hne, htoken⟩
      exact hnone other hne token htoken
  rw [mem_wordsOf_new, hown]
  simp only [Abbreviates, hothers]
  constructor
  · rintro ⟨token, htoken, rfl | ⟨henabled, hne, hlength, hbegins, hnone⟩⟩
    · exact .inl htoken
    · by_cases hwhole : word = token
      · exact .inl (hwhole ▸ htoken)
      · exact .inr ⟨henabled, hne, hlength, ⟨token, htoken, hwhole, hbegins⟩, hnone⟩
  · rintro (hword | ⟨henabled, hne, hlength, ⟨token, htoken, -, hbegins⟩, hnone⟩)
    · exact ⟨word, hword, .inl rfl⟩
    · exact ⟨token, htoken, .inr ⟨henabled, hne, hlength, hbegins, hnone⟩⟩

/-- A word that is accepted for a group begins a token of it. -/
theorem exists_token_of_mem_wordsOf
    (hword : word ∈ (new groups minLength enabled).wordsOf place) :
    ∃ token ∈ ownTokens groups place, word.toList <+: token.toList := by
  rcases mem_wordsOf_iff.mp hword with htoken | ⟨-, -, -, ⟨token, htoken, -, hbegins⟩, -⟩
  · exact ⟨word, htoken, List.prefix_rfl⟩
  · exact ⟨token, htoken, hbegins⟩

/-- A word is accepted for one group at most. -/
theorem eq_of_mem_wordsOf (hplace : word ∈ (new groups minLength enabled).wordsOf place)
    (hother : word ∈ (new groups minLength enabled).wordsOf other) : place = other := by
  -- An abbreviation for one group begins no token of another one.
  have habbreviation : ∀ {first second : Nat},
      word ∈ (new groups minLength enabled).wordsOf first → word ∉ ownTokens groups first →
        word ∈ (new groups minLength enabled).wordsOf second → first = second := by
    intro first second hfirst hshort hsecond
    obtain ⟨token, htoken, hbegins⟩ := exists_token_of_mem_wordsOf hsecond
    rcases mem_wordsOf_iff.mp hfirst with hwhole | ⟨-, -, -, -, hnone⟩
    · exact absurd hwhole hshort
    · by_contra hne
      exact hnone second (Ne.symm hne) token htoken hbegins
  by_cases hplace_own : word ∈ ownTokens groups place
  · by_cases hother_own : word ∈ ownTokens groups other
    · exact eq_of_mem_ownTokens hplace_own hother_own
    · exact (habbreviation hother hother_own hplace).symm
  · exact habbreviation hplace hplace_own hother

/-- The group found for a word is the one that accepts it. -/
theorem groupOf?_eq_some_iff : (new groups minLength enabled).groupOf? word = some place ↔
    word ∈ (new groups minLength enabled).wordsOf place := by
  have hwords : ∀ {place} (hlt : place < (new groups minLength enabled).accepted.length),
      (new groups minLength enabled).wordsOf place =
        (new groups minLength enabled).accepted[place] := by
    intro place hlt
    rw [wordsOf, List.getElem?_eq_getElem hlt]
    rfl
  unfold groupOf?
  rw [List.findIdx?_eq_some_iff_getElem]
  constructor
  · rintro ⟨hlt, hfound, -⟩
    rw [hwords hlt]
    exact List.contains_iff_mem.mp hfound
  · intro hword
    have hlt : place < (new groups minLength enabled).accepted.length := by
      by_contra hge
      rw [wordsOf, List.getElem?_eq_none (Nat.le_of_not_lt hge)] at hword
      cases hword
    refine ⟨hlt, ?_, fun earlier hearlier hcontains => ?_⟩
    · rw [hwords hlt] at hword
      exact List.contains_iff_mem.mpr hword
    · have hmem := List.contains_iff_mem.mp hcontains
      rw [← hwords (Nat.lt_trans hearlier hlt)] at hmem
      exact Nat.ne_of_lt hearlier (eq_of_mem_wordsOf hmem hword)

/-- A token stands for itself. -/
theorem expand?_of_mem_ownTokens (htoken : word ∈ ownTokens groups place) :
    (new groups minLength enabled).expand? word = some word := by
  have hgroup : (new groups minLength enabled).groupOf? word = some place :=
    groupOf?_eq_some_iff.mpr (mem_wordsOf_iff.mpr (.inl htoken))
  unfold expand?
  rw [hgroup]
  simp [groups_new, htoken]

/-- An abbreviation stands for the first token of its group that begins with it. -/
theorem expand?_of_notMem_ownTokens
    (hword : word ∈ (new groups minLength enabled).wordsOf place)
    (hshort : word ∉ ownTokens groups place) :
    ∃ token, (ownTokens groups place).find? (Text.beginsWith · word) = some token ∧
      (new groups minLength enabled).expand? word = some token := by
  obtain ⟨token, htoken, hbegins⟩ := exists_token_of_mem_wordsOf hword
  have hsome : ((ownTokens groups place).find? (Text.beginsWith · word)).isSome :=
    List.find?_isSome.mpr ⟨token, htoken, Text.beginsWith_iff.mpr hbegins⟩
  obtain ⟨first, hfirst⟩ := Option.isSome_iff_exists.mp hsome
  refine ⟨first, hfirst, ?_⟩
  unfold expand?
  rw [groupOf?_eq_some_iff.mpr hword]
  simp [groups_new, hshort, hfirst]

/-- A word that no group accepts stands for nothing. -/
theorem expand?_eq_none
    (hnone : ∀ place, word ∉ (new groups minLength enabled).wordsOf place) :
    (new groups minLength enabled).expand? word = none := by
  have hgroup : (new groups minLength enabled).groupOf? word = none := by
    rw [Option.eq_none_iff_forall_ne_some]
    intro place hplace
    exact hnone place (groupOf?_eq_some_iff.mp hplace)
  unfold expand?
  rw [hgroup]
  rfl

/-! ## The list of words for a group -/

/-- No word is accepted twice for a group. -/
theorem nodup_acceptedWords (others : List String) (minLength : Nat) (tokens : List String) :
    (acceptedWords others minLength tokens).Nodup := by
  unfold acceptedWords
  exact (List.mergeSort_perm _ _).symm.nodup (nodup_eraseDups _)

/-- Of the words that are accepted for a group, shorter ones come first. -/
theorem pairwise_acceptedWords (others : List String) (minLength : Nat) (tokens : List String) :
    (acceptedWords others minLength tokens).Pairwise fun a b => a.length ≤ b.length := by
  unfold acceptedWords
  let shorter : String → String → Bool := fun a b => a.length ≤ b.length
  have htrans : ∀ a b c, shorter a b = true → shorter b c = true → shorter a c = true := by
    intro a b c hab hbc
    simp only [shorter, decide_eq_true_eq] at hab hbc ⊢
    exact Nat.le_trans hab hbc
  have htotal : ∀ a b, (shorter a b || shorter b a) = true := by
    intro a b
    simpa [shorter] using Nat.le_total a.length b.length
  exact (List.pairwise_mergeSort htrans htotal _).imp fun hle => by simpa [shorter] using hle

/-- Where abbreviations are off, the words for a group are its tokens. -/
theorem wordsOf_new_disabled (groups : List (List String)) (minLength place : Nat) :
    (new groups minLength false).wordsOf place = ownTokens groups place :=
  groups_new groups minLength false place

/-- Where abbreviations are on, the words for a group are the accepted beginnings of its tokens. -/
theorem wordsOf_new_enabled (groups : List (List String)) (minLength place : Nat) :
    ∃ others, (new groups minLength true).wordsOf place =
      acceptedWords others minLength (ownTokens groups place) := by
  refine ⟨otherTokens (distinctGroups [] groups) place, ?_⟩
  have hown : (distinctGroups [] groups)[place]?.getD [] = ownTokens groups place :=
    groups_new groups minLength true place
  rw [← hown]
  simp only [wordsOf, new, ↓reduceIte, List.getElem?_map, List.getElem?_zipIdx]
  cases (distinctGroups [] groups)[place]? with
  | none => simp [acceptedWords]
  | some tokens => simp

/-- No word is listed twice for a group. -/
theorem nodup_wordsOf (groups : List (List String)) (minLength : Nat) (enabled : Bool)
    (place : Nat) : ((new groups minLength enabled).wordsOf place).Nodup := by
  cases enabled with
  | false =>
    rw [wordsOf_new_disabled]
    exact nodup_ownTokens groups place
  | true =>
    obtain ⟨others, hwords⟩ := wordsOf_new_enabled groups minLength place
    rw [hwords]
    exact nodup_acceptedWords others minLength _

/-- Where abbreviations are on, shorter words come first. -/
theorem pairwise_wordsOf (groups : List (List String)) (minLength place : Nat) :
    ((new groups minLength true).wordsOf place).Pairwise fun a b => a.length ≤ b.length := by
  obtain ⟨others, hwords⟩ := wordsOf_new_enabled groups minLength place
  rw [hwords]
  exact pairwise_acceptedWords others minLength _

/-- The words accepted for a group are its tokens and, if abbreviations are on, the long enough
beginnings of them that begin no token of another group; so a word belongs to one group at most,
and it stands for itself if it is a token and otherwise for the first token of its group that
begins with it. No word is listed twice, and abbreviations put shorter words first. -/
theorem wordsOf_unambiguous (groups : List (List String)) (minLength : Nat) (enabled : Bool) :
    (∀ place word, word ∈ (new groups minLength enabled).wordsOf place ↔
      word ∈ ownTokens groups place ∨
        enabled = true ∧ word ≠ "" ∧ minLength ≤ word.length ∧
          (∃ token ∈ ownTokens groups place, word ≠ token ∧ word.toList <+: token.toList) ∧
          ∀ other ≠ place, ∀ token ∈ ownTokens groups other, ¬ word.toList <+: token.toList) ∧
    (∀ place other word, word ∈ (new groups minLength enabled).wordsOf place →
      word ∈ (new groups minLength enabled).wordsOf other → place = other) ∧
    (∀ word place, (new groups minLength enabled).groupOf? word = some place ↔
      word ∈ (new groups minLength enabled).wordsOf place) ∧
    (∀ place, ∀ word ∈ ownTokens groups place,
      (new groups minLength enabled).expand? word = some word) ∧
    (∀ place, ∀ word ∈ (new groups minLength enabled).wordsOf place,
      word ∉ ownTokens groups place →
        ∃ token, (ownTokens groups place).find? (Text.beginsWith · word) = some token ∧
          (new groups minLength enabled).expand? word = some token) ∧
    (∀ word, (∀ place, word ∉ (new groups minLength enabled).wordsOf place) →
      (new groups minLength enabled).expand? word = none) ∧
    (∀ place, ((new groups minLength enabled).wordsOf place).Nodup) ∧
    (enabled = true → ∀ place, ((new groups minLength enabled).wordsOf place).Pairwise
      fun a b => a.length ≤ b.length) := by
  refine ⟨fun place word => mem_wordsOf_iff, fun place other word => eq_of_mem_wordsOf,
    fun word place => groupOf?_eq_some_iff, ?_, ?_, ?_, nodup_wordsOf groups minLength enabled, ?_⟩
  · intro place word htoken
    exact expand?_of_mem_ownTokens htoken
  · intro place word hword hshort
    exact expand?_of_notMem_ownTokens hword hshort
  · intro word hnone
    exact expand?_eq_none hnone
  · rintro rfl place
    exact pairwise_wordsOf groups minLength place

end ShellCompletion.Spellings
