import ShellCompletion.Proofs.Spellings.Groups

/-!
# Tokens that each form a group

The long and old-style strings of options are not grouped: every token forms a group of its own.
A word then stands for one token at most, the only one that it is or begins.
-/

namespace ShellCompletion.Spellings

variable {tokens : List String} {token word : String} {place minLength : Nat} {enabled : Bool}

/-! ## What a word stands for -/

/-- A word stands for one of several tokens: it is the token or, if abbreviations are on, an
abbreviation that begins no other token. -/
def Spells (tokens : List String) (minLength : Nat) (enabled : Bool) (word token : String) :
    Prop :=
  word = token ∨ enabled = true ∧ Abbreviates minLength (tokens.filter (· ≠ token)) word token

/-- What a word stands for depends on which tokens there are only. -/
theorem Spells.congr {tokens' : List String} (hsame : ∀ token, token ∈ tokens ↔ token ∈ tokens') :
    Spells tokens minLength enabled word token ↔ Spells tokens' minLength enabled word token := by
  simp only [Spells, Abbreviates, List.mem_filter, hsame]

/-- A word that stands for a token is the token or no shorter than the shortest abbreviation. -/
theorem Spells.prefix_and_length (hspells : Spells tokens minLength enabled word token) :
    word.toList <+: token.toList ∧ (word = token ∨ minLength ≤ word.length) := by
  rcases hspells with rfl | ⟨-, -, hlength, hbegins, -⟩
  · exact ⟨List.prefix_rfl, .inl rfl⟩
  · exact ⟨hbegins, .inr hlength⟩

/-- A word stands for one of several tokens at most. -/
theorem Spells.unique {other : String} (htoken : token ∈ tokens) (hother : other ∈ tokens)
    (hspells : Spells tokens minLength enabled word token)
    (hspells' : Spells tokens minLength enabled word other) : token = other := by
  have hbegins : ∀ {a b}, a ∈ tokens → word.toList <+: a.toList →
      Abbreviates minLength (tokens.filter (· ≠ b)) word b → a = b := by
    intro a b ha hbegins habbreviates
    by_contra hne
    exact habbreviates.2.2.2 a (List.mem_filter.mpr ⟨ha, by simpa using hne⟩) hbegins
  rcases hspells with rfl | ⟨-, habbreviates⟩
  · rcases hspells' with rfl | ⟨-, habbreviates'⟩
    · rfl
    · exact hbegins htoken List.prefix_rfl habbreviates'
  · rcases hspells' with rfl | ⟨-, habbreviates'⟩
    · exact (hbegins hother List.prefix_rfl habbreviates).symm
    · exact hbegins htoken habbreviates.2.2.1 habbreviates'

/-! ## Places of tokens -/

/-- A token has a first place. -/
theorem exists_idxOf? (htoken : token ∈ tokens) : ∃ place, tokens.idxOf? token = some place := by
  cases hplace : tokens.idxOf? token with
  | none => exact absurd htoken (List.idxOf?_eq_none_iff.mp hplace)
  | some place => exact ⟨place, rfl⟩

/-- Only tokens have a first place. -/
theorem mem_of_idxOf? (hplace : tokens.idxOf? token = some place) : token ∈ tokens := by
  obtain ⟨hlt, hget, -⟩ := List.idxOf?_eq_some_iff.mp hplace
  exact hget ▸ List.getElem_mem hlt

/-- A first place is that of one token. -/
theorem eq_of_idxOf? {other : String} (hplace : tokens.idxOf? token = some place)
    (hplace' : tokens.idxOf? other = some place) : other = token := by
  obtain ⟨_, hget, -⟩ := List.idxOf?_eq_some_iff.mp hplace
  obtain ⟨_, hget', -⟩ := List.idxOf?_eq_some_iff.mp hplace'
  exact hget'.symm.trans hget

/-- The group of a token is at the first place of the token. -/
theorem mem_ownTokens_singletons :
    token ∈ ownTokens (tokens.map fun token => [token]) place ↔
      tokens.idxOf? token = some place := by
  have hsingleton : ∀ place : Nat,
      token ∈ (tokens.map fun token => [token])[place]?.getD [] ↔ tokens[place]? = some token := by
    intro place
    rw [List.getElem?_map]
    cases tokens[place]? with
    | none => simp
    | some first => simp [eq_comm]
  rw [mem_ownTokens, List.idxOf?_eq_some_iff]
  simp only [hsingleton]
  constructor
  · rintro ⟨hplace, hearlier⟩
    obtain ⟨hlt, hget⟩ := List.getElem?_eq_some_iff.mp hplace
    exact ⟨hlt, hget, fun earlier hearlier_lt hsame => hearlier earlier hearlier_lt
      (List.getElem?_eq_some_iff.mpr ⟨_, hsame⟩)⟩
  · rintro ⟨hlt, hget, hearlier⟩
    refine ⟨List.getElem?_eq_some_iff.mpr ⟨hlt, hget⟩, fun earlier hearlier_lt hsame => ?_⟩
    obtain ⟨_, hget'⟩ := List.getElem?_eq_some_iff.mp hsame
    exact hearlier earlier hearlier_lt hget'

/-- The words at the place of a token are those that stand for it. -/
theorem mem_wordsOf_ofTokens (hplace : tokens.idxOf? token = some place) :
    word ∈ (ofTokens tokens minLength enabled).wordsOf place ↔
      Spells tokens minLength enabled word token := by
  have hown : ∀ other, other ∈ ownTokens (tokens.map fun token => [token]) place ↔
      other = token := by
    intro other
    rw [mem_ownTokens_singletons]
    exact ⟨eq_of_idxOf? hplace, fun heq => heq ▸ hplace⟩
  have hothers : (∀ other ≠ place, ∀ found ∈ ownTokens (tokens.map fun token => [token]) other,
      ¬ word.toList <+: found.toList) ↔
        ∀ found ∈ tokens.filter (· ≠ token), ¬ word.toList <+: found.toList := by
    simp only [mem_ownTokens_singletons, List.mem_filter, decide_eq_true_eq]
    constructor
    · rintro hnone found ⟨hfound, hne⟩
      obtain ⟨other, hother⟩ := exists_idxOf? hfound
      refine hnone other ?_ found hother
      rintro rfl
      exact hne (eq_of_idxOf? hplace hother)
    · intro hnone other hne found hother
      refine hnone found ⟨mem_of_idxOf? hother, ?_⟩
      rintro rfl
      exact hne (Option.some.inj (hother.symm.trans hplace))
  rw [ofTokens, mem_wordsOf_iff]
  simp only [hown, hothers, exists_eq_left, Spells, Abbreviates]
  tauto

/-- The place found for a word is that of a token that the word stands for. -/
theorem exists_of_groupOf? (hgroup : (ofTokens tokens minLength enabled).groupOf? word =
    some place) :
    ∃ token, tokens.idxOf? token = some place ∧ Spells tokens minLength enabled word token := by
  have hword := groupOf?_eq_some_iff.mp hgroup
  obtain ⟨token, htoken, -⟩ := exists_token_of_mem_wordsOf hword
  have hplace := mem_ownTokens_singletons.mp htoken
  exact ⟨token, hplace, (mem_wordsOf_ofTokens hplace).mp hword⟩

/-- There is a place for every word that stands for a token. -/
theorem exists_groupOf? (htoken : token ∈ tokens)
    (hspells : Spells tokens minLength enabled word token) :
    ∃ place, (ofTokens tokens minLength enabled).groupOf? word = some place := by
  obtain ⟨place, hplace⟩ := exists_idxOf? htoken
  exact ⟨place, groupOf?_eq_some_iff.mpr ((mem_wordsOf_ofTokens hplace).mpr hspells)⟩

/-- A word is expanded to the token whose place is found for it. -/
theorem expand?_of_idxOf? (hplace : tokens.idxOf? token = some place)
    (hgroup : (ofTokens tokens minLength enabled).groupOf? word = some place) :
    (ofTokens tokens minLength enabled).expand? word = some token := by
  have honly : ∀ other, other ∈ ownTokens (tokens.map fun token => [token]) place →
      other = token := fun other hother =>
    eq_of_idxOf? hplace (mem_ownTokens_singletons.mp hother)
  unfold ofTokens at hgroup ⊢
  by_cases hwhole : word ∈ ownTokens (tokens.map fun token => [token]) place
  · rw [expand?_of_mem_ownTokens hwhole, honly word hwhole]
  · obtain ⟨first, hfirst, hexpand⟩ :=
      expand?_of_notMem_ownTokens (groupOf?_eq_some_iff.mp hgroup) hwhole
    rw [hexpand, honly first (List.mem_of_find?_eq_some hfirst)]

/-- A word is expanded to the token that it stands for. -/
theorem expand?_ofTokens : (ofTokens tokens minLength enabled).expand? word = some token ↔
    token ∈ tokens ∧ Spells tokens minLength enabled word token := by
  constructor
  · intro hexpand
    cases hgroup : (ofTokens tokens minLength enabled).groupOf? word with
    | none =>
      rw [expand?, hgroup] at hexpand
      cases hexpand
    | some place =>
      obtain ⟨other, hplace, hspells⟩ := exists_of_groupOf? hgroup
      rw [expand?_of_idxOf? hplace hgroup, Option.some.injEq] at hexpand
      exact hexpand ▸ ⟨mem_of_idxOf? hplace, hspells⟩
  · rintro ⟨htoken, hspells⟩
    obtain ⟨place, hgroup⟩ := exists_groupOf? htoken hspells
    obtain ⟨other, hplace, hspells'⟩ := exists_of_groupOf? hgroup
    rw [expand?_of_idxOf? hplace hgroup, hspells'.unique (mem_of_idxOf? hplace) htoken hspells]

end ShellCompletion.Spellings
