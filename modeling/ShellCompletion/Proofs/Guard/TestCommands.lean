import ShellCompletion.Proofs.Guard.CommandList
import ShellCompletion.Script.Fish.Command
import ShellCompletion.Script.Zsh.Function

/-!
# Commands that ask for tests

The calls of helper functions in zsh and fish are single commands whatever strings, values
and words their tests name, since these are escaped.
-/

namespace ShellCompletion.CommandList

variable {dialect : Dialect}

/-- The text is one word. -/
def IsSingleWord (dialect : Dialect) (text : String) : Prop :=
  tokens? dialect text = some [.word text]

/-- The characters that can end a word or change how the next ones are read. -/
def special : List Char :=
  ['\\', '\'', '"', '(', ')', ' ', '\t', ';', '\n', '&', '|', '#']

/-- Characters without a meaning of their own belong to the word. -/
theorem Lexer.foldl_push {chars : List Char} (hchars : ∀ c ∈ chars, c ∉ special)
    (tokens : List Token) (word : List Char) :
    chars.foldl (Lexer.read dialect) ⟨tokens, word, .plain, 0⟩ =
      ⟨tokens, word ++ chars, .plain, 0⟩ := by
  induction chars generalizing word with
  | nil => simp
  | cons c rest ih =>
    have hc := hchars c List.mem_cons_self
    have hstep : Lexer.read dialect ⟨tokens, word, .plain, 0⟩ c =
        ⟨tokens, word ++ [c], .plain, 0⟩ := by
      simp only [special, List.mem_cons, List.not_mem_nil, or_false, not_or] at hc
      simp [Lexer.read, Lexer.readPlain, Lexer.push, hc]
    rw [List.foldl_cons, hstep, ih (fun d hd => hchars d (List.mem_cons_of_mem _ hd)),
      List.append_assoc, List.singleton_append]

/-- A text that leaves its characters as a word is one. -/
theorem isSingleWord_of_foldl {text : String} (hne : text.toList ≠ [])
    (hfold : text.toList.foldl (Lexer.read dialect) {} = ⟨[], text.toList, .plain, 0⟩) :
    IsSingleWord dialect text := by
  simp [IsSingleWord, tokens?, hfold, Lexer.finish, Lexer.lastWord, hne]

/-- A word without special characters is one word. -/
theorem isSingleWord_of_notMem {text : String} (hne : text.toList ≠ [])
    (htext : ∀ c ∈ text.toList, c ∉ special) : IsSingleWord dialect text :=
  isSingleWord_of_foldl hne (Lexer.foldl_push htext [] [])

/-- A word of safe characters is one word. -/
theorem isSingleWord_of_isSafeWord {text : String} (htext : Text.isSafeWord text = true) :
    IsSingleWord dialect text := by
  have hspecial : special.all (fun c => !Text.isSafeChar c) = true := by decide
  rw [Text.isSafeWord, Bool.and_eq_true, List.all_eq_true] at htext
  obtain ⟨hne, hsafe⟩ := htext
  apply isSingleWord_of_notMem
  · simpa using hne
  · intro c hc hmem
    have hunsafe := List.all_eq_true.mp hspecial c hmem
    rw [hsafe c hc] at hunsafe
    cases hunsafe

/-- A number is one word. -/
theorem isSingleWord_toString (number : Nat) : IsSingleWord dialect (toString number) := by
  have hchars : (toString number).toList = Nat.toDigits 10 number := by
    simp [Nat.toString_eq_repr, Nat.toList_repr]
  apply isSingleWord_of_notMem
  · rw [hchars]
    exact Nat.toDigits_ne_nil
  · intro c hc hmem
    rw [hchars] at hc
    have hdigit : c.isDigit = true := Nat.isDigit_of_mem_toDigits (by omega) (by omega) hc
    have hspecial : special.all (fun c => !c.isDigit) = true := by decide
    have hnone := List.all_eq_true.mp hspecial c hmem
    rw [hdigit] at hnone
    cases hnone

/-- Between single quotes every character is kept, if `quote` says how it is written. -/
theorem Lexer.foldl_quoted {quote : Char → List Char}
    (hquote : ∀ c tokens word, (quote c).foldl (Lexer.read dialect)
      ⟨tokens, word, .quoted '\'', 0⟩ = ⟨tokens, word ++ quote c, .quoted '\'', 0⟩)
    (chars : List Char) (tokens : List Token) (word : List Char) :
    (chars.flatMap quote).foldl (Lexer.read dialect) ⟨tokens, word, .quoted '\'', 0⟩ =
      ⟨tokens, word ++ chars.flatMap quote, .quoted '\'', 0⟩ := by
  induction chars generalizing word with
  | nil => simp
  | cons c rest ih =>
    rw [List.flatMap_cons, List.foldl_append, hquote, ih, List.append_assoc]

/-- A text between single quotes is one word. -/
theorem isSingleWord_quoted {quote : Char → List Char}
    (hquote : ∀ c tokens word, (quote c).foldl (Lexer.read dialect)
      ⟨tokens, word, .quoted '\'', 0⟩ = ⟨tokens, word ++ quote c, .quoted '\'', 0⟩)
    (chars : List Char) :
    IsSingleWord dialect (String.ofList (['\''] ++ chars.flatMap quote ++ ['\''])) := by
  apply isSingleWord_of_foldl
  · simp
  · have hopen : ['\''].foldl (Lexer.read dialect) {} = ⟨[], ['\''], .quoted '\'', 0⟩ := rfl
    rw [String.toList_ofList, List.foldl_append, List.foldl_append, hopen,
      Lexer.foldl_quoted hquote]
    simp [Lexer.read, Lexer.push]

/-- An escaped word is one word in bash and zsh. -/
theorem isSingleWord_escape (word : String) : IsSingleWord .posix (Text.escape word) := by
  unfold Text.escape
  split
  · rename_i hsafe
    exact isSingleWord_of_isSafeWord hsafe
  · apply isSingleWord_quoted
    intro c tokens word
    unfold Text.posixChar
    split
    · simp [Lexer.read, Lexer.readPlain, Lexer.push, Dialect.escapesIn]
    · rename_i hc
      have hmark : c ≠ '\'' := by simpa using hc
      simp [Lexer.read, Lexer.push, Dialect.escapesIn, hmark]

/-- An escaped word is one word in fish. -/
theorem isSingleWord_escapeFish (word : String) : IsSingleWord .fish (Text.escapeFish word) := by
  unfold Text.escapeFish
  split
  · rename_i hsafe
    exact isSingleWord_of_isSafeWord hsafe
  · apply isSingleWord_quoted
    intro c tokens word
    unfold Text.fishChar
    split
    · simp [Lexer.read, Lexer.push, Dialect.escapesIn]
    · rename_i hc
      have hmark : c ≠ '\'' ∧ c ≠ '\\' := by simpa using hc
      simp [Lexer.read, Lexer.push, hmark]

/-- Texts with blanks between them have the words of each of them. -/
theorem tokens?_intercalate {pieces : List (String × List String)}
    (hpieces : ∀ piece ∈ pieces, tokens? dialect piece.1 = some (piece.2.map .word)) :
    tokens? dialect (" ".intercalate (pieces.map (·.1))) =
      some ((pieces.flatMap (·.2)).map .word) := by
  induction pieces with
  | nil => cases dialect <;> decide +kernel
  | cons piece rest ih =>
    have hrest := ih fun other hother => hpieces other (List.mem_cons_of_mem _ hother)
    have hpiece := hpieces piece List.mem_cons_self
    cases rest with
    | nil => simpa using hpiece
    | cons next others =>
      have htext : " ".intercalate ((piece :: next :: others).map (·.1)) =
          piece.1 ++ " " ++ " ".intercalate ((next :: others).map (·.1)) := by
        apply String.toList_injective
        simp
      rw [htext, tokens?_blank hpiece, hrest, Option.map_some, ← List.map_append]
      rfl

/-- A single word as a piece of a command. -/
def single (word : String) : String × List String :=
  (word, [word])

/-- Words with blanks between them as a piece of a command. -/
def several (words : List String) : String × List String :=
  (" ".intercalate words, words)

/-- What a call of a helper function asks for, in pieces. -/
def arguments (escape : String → String) : Test → List (String × List String)
  | .hasOption strings => [single "has_option", several (strings.map escape)]
  | .optionIs strings values =>
    [single "option_is", several (strings.map escape), single "--", several (values.map escape)]
  | .positionalContains number words =>
    [single "positional_contains", single (toString number), several (words.map escape)]
  | .positionalCount comparison count =>
    [single "num_of_positionals", single (Fish.operator comparison), single (toString count)]

/-- Escaped words with blanks between them are words, if each escaped word is one. -/
theorem tokens?_several {escape : String → String}
    (hescape : ∀ word, IsSingleWord dialect (escape word)) (words : List String) :
    tokens? dialect (several (words.map escape)).1 =
      some ((several (words.map escape)).2.map .word) := by
  have hpieces : ∀ piece ∈ words.map (fun word => single (escape word)),
      tokens? dialect piece.1 = some (piece.2.map .word) := by
    intro piece hpiece
    obtain ⟨word, -, rfl⟩ := List.mem_map.mp hpiece
    exact hescape word
  have htexts : (words.map fun word => single (escape word)).map (·.1) = words.map escape := by
    simp [single]
  have hwords : (words.map fun word => single (escape word)).flatMap (·.2) =
      words.map escape := by
    simp [single, List.flatMap_map, ← List.map_eq_flatMap]
  have hall := tokens?_intercalate hpieces
  rwa [htexts, hwords] at hall

/-- The arguments of a call are words, if escaped words are. -/
theorem tokens?_arguments {escape : String → String}
    (hescape : ∀ word, IsSingleWord dialect (escape word)) (test : Test) :
    tokens? dialect (" ".intercalate ((arguments escape test).map (·.1))) =
      some (((arguments escape test).flatMap (·.2)).map .word) := by
  have hsingle {word : String} (hword : IsSingleWord dialect word) :
      tokens? dialect (single word).1 = some ((single word).2.map .word) := hword
  have hsafe {word : String} (hword : Text.isSafeWord word = true) :
      tokens? dialect (single word).1 = some ((single word).2.map .word) :=
    hsingle (isSingleWord_of_isSafeWord hword)
  have hseveral := tokens?_several hescape
  apply tokens?_intercalate
  cases test with
  | hasOption strings =>
    simp only [arguments, List.forall_mem_cons]
    exact ⟨hsafe (by decide +kernel), hseveral strings, by simp⟩
  | optionIs strings values =>
    simp only [arguments, List.forall_mem_cons]
    exact ⟨hsafe (by decide +kernel), hseveral strings, hsafe (by decide +kernel),
      hseveral values, by simp⟩
  | positionalContains number words =>
    simp only [arguments, List.forall_mem_cons]
    exact ⟨hsafe (by decide +kernel), hsingle (isSingleWord_toString number),
      hseveral words, by simp⟩
  | positionalCount comparison count =>
    have hoperator : Text.isSafeWord (Fish.operator comparison) = true := by
      cases comparison <;> decide +kernel
    simp only [arguments, List.forall_mem_cons]
    exact ⟨hsafe (by decide +kernel), hsafe hoperator,
      hsingle (isSingleWord_toString count), by simp⟩

/-- In zsh a test is asked by the call of a helper function with arguments. -/
theorem testCommand_eq (helper : String) (test : Test) :
    Zsh.testCommand helper test = helper ++ " " ++
      " ".intercalate ((arguments Text.escape test).map (·.1)) := by
  apply String.toList_injective
  cases test with
  | positionalCount comparison count =>
    cases comparison <;> simp [Zsh.testCommand, arguments, single, Fish.operator]
  | _ => simp [Zsh.testCommand, arguments, single, several, Text.escapeAll]

/-- In fish a test is asked by the call of a helper function with more arguments. -/
theorem helperCommand_eq (call : String) (test : Test) :
    Fish.helperCommand call test = call ++ " " ++
      " ".intercalate ((arguments Text.escapeFish test).map (·.1)) := by
  apply String.toList_injective
  cases test <;>
    simp [Fish.helperCommand, arguments, single, several, Text.escapeFishAll]

/-- A command with more words is a command. -/
theorem IsCommand.append {a b : String} {words more : List String}
    (ha : IsCommand dialect a words) (hb : tokens? dialect b = some (more.map .word)) :
    IsCommand dialect (a ++ " " ++ b) (words ++ more) := by
  obtain ⟨htokens, first, hfirst, hplain⟩ := ha
  obtain ⟨rest, rfl⟩ := List.head?_eq_some_iff.mp hfirst
  constructor
  · rw [tokens?_blank htokens, hb, List.map_append]
    rfl
  · exact ⟨first, rfl, hplain⟩

/-- In zsh a test is asked by a single command. -/
theorem isCommand_testCommand {helper : String} {words : List String}
    (hhelper : IsCommand .posix helper words) (test : Test) :
    IsCommand .posix (Zsh.testCommand helper test)
      (words ++ (arguments Text.escape test).flatMap (·.2)) := by
  rw [testCommand_eq]
  exact hhelper.append (tokens?_arguments isSingleWord_escape test)

/-- In fish a test is asked by a single command. -/
theorem isCommand_helperCommand {call : String} {words : List String}
    (hcall : IsCommand .fish call words) (test : Test) :
    IsCommand .fish (Fish.helperCommand call test)
      (words ++ (arguments Text.escapeFish test).flatMap (·.2)) := by
  rw [helperCommand_eq]
  exact hcall.append (tokens?_arguments isSingleWord_escapeFish test)

end ShellCompletion.CommandList
