import Mathlib.Data.List.Forall2
import ShellCompletion.HelperFunctions

/-!
# Reading quoted words

How a shell reads the words of a text: blanks outside of quotes separate them, and quotes are
removed. Every word is read back from its quoted form, and so is a list of quoted words with
blanks between them.
-/

namespace ShellCompletion

namespace FunctionStyle

/-- How a character is written between single quotes. -/
def quoteChar : FunctionStyle → Char → List Char
  | posix => Text.posixChar
  | fish => Text.fishChar

/-- The word in shell code. -/
def quote : FunctionStyle → String → String
  | posix => Text.escape
  | fish => Text.escapeFish

/-- The words in shell code. -/
def quoteAll : FunctionStyle → List String → String
  | posix => Text.escapeAll
  | fish => Text.escapeFishAll

end FunctionStyle

namespace ShellWords

/-! ## The reader -/

/-- The kinds of quotes. -/
inductive Quote where
  /-- Single quotes. -/
  | single
  /-- Double quotes. -/
  | double
deriving Repr, DecidableEq

/-- The mark at both ends of a quoted text. -/
def Quote.mark : Quote → Char
  | single => '\''
  | double => '"'

/-- Whether a backslash between quotes can keep a mark from ending the text. -/
def Quote.hasEscapes (style : FunctionStyle) (quote : Quote) : Bool :=
  quote == double || style == .fish

/-- How the next character is read. -/
inductive Mode where
  /-- Outside of quotes. -/
  | plain
  /-- After a backslash outside of quotes. -/
  | escaped
  /-- Between quotes. -/
  | quoted (quote : Quote)
  /-- After a backslash between quotes. -/
  | slashed (quote : Quote)
deriving Repr, DecidableEq

namespace Mode

/-- How the character after this one is read. -/
def next (style : FunctionStyle) : Mode → Char → Mode
  | plain, c =>
    if c = '\'' then quoted .single
    else if c = '"' then quoted .double
    else if c = '\\' then escaped
    else plain
  | escaped, _ => plain
  | quoted quote, c =>
    if c = quote.mark then plain
    else if c = '\\' ∧ quote.hasEscapes style then slashed quote
    else quoted quote
  | slashed quote, _ => quoted quote

/-- How the characters after a text are read. -/
def after (style : FunctionStyle) (mode : Mode) (chars : List Char) : Mode :=
  chars.foldl (next style) mode

/-- What the character adds to the word that it belongs to. -/
def adds (style : FunctionStyle) : Mode → Char → List Char
  | plain, c => if c = '\'' ∨ c = '"' ∨ c = '\\' then [] else [c]
  | escaped, c => [c]
  | quoted quote, c => if c = quote.mark ∨ c = '\\' ∧ quote.hasEscapes style then [] else [c]
  | slashed quote, c => if c = quote.mark ∨ c = '\\' then [c] else ['\\', c]

/-- The character, if it is outside of quotes and none itself. -/
def bareChar : Mode → Char → List Char
  | plain, c => if c = '\'' ∨ c = '"' then [] else [c]
  | _, _ => []

end Mode

/-- Whether a character separates words outside of quotes. -/
def isSeparator (c : Char) : Bool :=
  c == ' ' || c == '\t' || c == '\n'

/-- What was read of a text so far. -/
structure Reader where
  /-- The words that are complete. -/
  words : List String := []
  /-- The word that is being read, if one has begun. -/
  word : Option (List Char) := none
  /-- The characters outside of quotes. -/
  bare : List Char := []
  /-- How the next character is read. -/
  mode : Mode := .plain
deriving Repr, DecidableEq

namespace Reader

/-- All words, if the text ends here. -/
def allWords (reader : Reader) : List String :=
  reader.words ++ (reader.word.map String.ofList).toList

/-- Reads a character. -/
def read (style : FunctionStyle) (reader : Reader) (c : Char) : Reader :=
  let bare := reader.bare ++ reader.mode.bareChar c
  let mode := reader.mode.next style c
  if reader.mode = .plain ∧ isSeparator c then ⟨reader.allWords, none, bare, mode⟩
  else ⟨reader.words, some (reader.word.getD [] ++ reader.mode.adds style c), bare, mode⟩

/-- The words of the text, if no quote is open. A backslash at the very end stands for
itself. -/
def finish (reader : Reader) : Option (List String) :=
  match reader.mode with
  | .plain => some reader.allWords
  | .escaped => some { reader with word := reader.word.map (· ++ ['\\']) }.allWords
  | _ => none

end Reader

/-- What is read of a text. -/
def readAll (style : FunctionStyle) (text : String) : Reader :=
  text.toList.foldl (Reader.read style) {}

/-- The words of a text, if no quote is left open. -/
def words? (style : FunctionStyle) (text : String) : Option (List String) :=
  (readAll style text).finish

/-- The words of a text that is itself the only word of a text. -/
def innerWords? (style : FunctionStyle) (text : String) : Option (List String) :=
  match words? style text with
  | some [inner] => words? style inner
  | _ => none

/-- The characters of a text that are not between quotes. -/
def bareChars (style : FunctionStyle) (text : String) : List Char :=
  (readAll style text).bare

/-! ## Single words -/

/-- Where no quotes are open, a text is read as a word or as what comes next in one. Some of its
characters are outside of quotes. -/
def Spells (style : FunctionStyle) (text word bare : List Char) : Prop :=
  ∀ words begun before, text.foldl (Reader.read style) ⟨words, begun, before, .plain⟩ =
    ⟨words, some (begun.getD [] ++ word), before ++ bare, .plain⟩

variable {style : FunctionStyle}

/-- Two texts in a row are read as one word. -/
theorem Spells.append {text word bare text' word' bare' : List Char}
    (hfirst : Spells style text word bare) (hsecond : Spells style text' word' bare') :
    Spells style (text ++ text') (word ++ word') (bare ++ bare') := by
  intro words begun before
  rw [List.foldl_append, hfirst, hsecond, Option.getD_some, List.append_assoc, List.append_assoc]

/-- A text that is one word is read as a list of one word. -/
theorem Spells.words?_eq {text : String} {word bare : List Char}
    (hspells : Spells style text.toList word bare) :
    words? style text = some [String.ofList word] := by
  rw [words?, readAll, hspells]
  rfl

/-- A character is ordinary if it stands for itself outside of quotes. -/
def IsOrdinary (c : Char) : Prop :=
  c ∉ ['\'', '"', '\\', ' ', '\t', '\n']

instance (c : Char) : Decidable (IsOrdinary c) :=
  inferInstanceAs (Decidable (_ ∉ _))

/-- A safe character is an ordinary one. -/
theorem isOrdinary_of_isSafeChar {c : Char} (hc : Text.isSafeChar c = true) : IsOrdinary c := by
  intro hmem
  have hunsafe : ['\'', '"', '\\', ' ', '\t', '\n'].all (!Text.isSafeChar ·) = true := by
    decide
  have hnone := List.all_eq_true.mp hunsafe c hmem
  rw [hc] at hnone
  cases hnone

/-- An ordinary character is read as itself. -/
theorem spells_ordinary {c : Char} (hc : IsOrdinary c) : Spells style [c] [c] [c] := by
  intro words begun before
  simp only [IsOrdinary, List.mem_cons, List.not_mem_nil, or_false, not_or] at hc
  simp [Reader.read, isSeparator, Mode.adds, Mode.next, Mode.bareChar, hc]

/-- Ordinary characters are read as themselves. -/
theorem spells_of_ordinary {chars : List Char} (hne : chars ≠ [])
    (hchars : ∀ c ∈ chars, IsOrdinary c) : Spells style chars chars chars := by
  induction chars with
  | nil => exact absurd rfl hne
  | cons c rest ih =>
    obtain ⟨hc, hrest⟩ := List.forall_mem_cons.mp hchars
    by_cases hnil : rest = []
    · rw [hnil]
      exact spells_ordinary hc
    · exact (spells_ordinary hc).append (ih hnil hrest)

/-- A character that is written between single quotes is read as itself. -/
theorem foldl_quoteChar (c : Char) (words : List String) (word bare : List Char) :
    (style.quoteChar c).foldl (Reader.read style) ⟨words, some word, bare, .quoted .single⟩ =
      ⟨words, some (word ++ [c]), bare, .quoted .single⟩ := by
  cases style with
  | posix =>
    by_cases hc : c = '\''
    · subst hc
      simp [FunctionStyle.quoteChar, Text.posixChar, Reader.read, Mode.adds, Mode.next,
        Mode.bareChar, isSeparator, Quote.mark, Quote.hasEscapes]
    · simp [FunctionStyle.quoteChar, Text.posixChar, Reader.read, Mode.adds, Mode.next,
        Mode.bareChar, Quote.mark, Quote.hasEscapes, hc]
  | fish =>
    by_cases hc : c = '\'' ∨ c = '\\'
    · rcases hc with rfl | rfl <;>
        simp [FunctionStyle.quoteChar, Text.fishChar, Reader.read, Mode.adds, Mode.next,
          Mode.bareChar, Quote.mark, Quote.hasEscapes]
    · rw [not_or] at hc
      simp [FunctionStyle.quoteChar, Text.fishChar, Reader.read, Mode.adds, Mode.next,
        Mode.bareChar, Quote.mark, hc]

/-- Between single quotes every character is read as itself. -/
theorem foldl_quoted (chars : List Char) (words : List String) (word bare : List Char) :
    (chars.flatMap style.quoteChar).foldl (Reader.read style)
        ⟨words, some word, bare, .quoted .single⟩ =
      ⟨words, some (word ++ chars), bare, .quoted .single⟩ := by
  induction chars generalizing word with
  | nil => simp
  | cons c rest ih =>
    rw [List.flatMap_cons, List.foldl_append, foldl_quoteChar, ih, List.append_assoc]
    rfl

/-- Characters between single quotes are a word. -/
def quotedChars (style : FunctionStyle) (chars : List Char) : List Char :=
  '\'' :: (chars.flatMap style.quoteChar ++ ['\''])

/-- A text between single quotes is read as itself, blanks and all. -/
theorem spells_quotedChars (chars : List Char) :
    Spells style (quotedChars style chars) chars [] := by
  intro words begun before
  have hopen : Reader.read style ⟨words, begun, before, .plain⟩ '\'' =
      ⟨words, some (begun.getD []), before, .quoted .single⟩ := by
    simp [Reader.read, isSeparator, Mode.adds, Mode.next, Mode.bareChar]
  rw [quotedChars, List.foldl_cons, hopen, List.foldl_append, foldl_quoted]
  simp [Reader.read, Mode.adds, Mode.next, Mode.bareChar, Quote.mark]

/-- A word in shell code is the word itself, if it is safe, or stands between single quotes. -/
theorem toList_quote (style : FunctionStyle) (word : String) :
    (style.quote word).toList =
      if Text.isSafeWord word = true then word.toList else quotedChars style word.toList := by
  cases style with
  | posix =>
    simp only [FunctionStyle.quote, Text.escape]
    split <;> simp [quotedChars, FunctionStyle.quoteChar]
  | fish =>
    simp only [FunctionStyle.quote, Text.escapeFish]
    split <;> simp [quotedChars, FunctionStyle.quoteChar]

/-- A safe word has characters, and safe ones only. -/
theorem isSafeWord_iff {word : String} : Text.isSafeWord word = true ↔
    word.toList ≠ [] ∧ ∀ c ∈ word.toList, Text.isSafeChar c = true := by
  simp [Text.isSafeWord, List.all_eq_true]

/-- A text is read as a word, and has safe characters only outside of quotes. -/
def SpellsSafely (style : FunctionStyle) (text word : List Char) : Prop :=
  ∃ bare, Spells style text word bare ∧ ∀ c ∈ bare, Text.isSafeChar c = true

/-- A safe word is read as itself. -/
theorem spellsSafely_of_safe {chars : List Char} (hne : chars ≠ [])
    (hchars : ∀ c ∈ chars, Text.isSafeChar c = true) : SpellsSafely style chars chars :=
  ⟨chars, spells_of_ordinary hne fun c hc => isOrdinary_of_isSafeChar (hchars c hc), hchars⟩

/-- A word is read back from its form in shell code. -/
theorem spellsSafely_quote (style : FunctionStyle) (word : String) :
    SpellsSafely style (style.quote word).toList word.toList := by
  rw [toList_quote]
  split
  · rename_i hsafe
    obtain ⟨hne, hchars⟩ := isSafeWord_iff.mp hsafe
    exact spellsSafely_of_safe hne hchars
  · exact ⟨[], spells_quotedChars word.toList, by simp⟩

/-! ## Lists of words -/

/-- Words in shell code have single blanks between them. -/
theorem quoteAll_eq (style : FunctionStyle) (words : List String) :
    style.quoteAll words = " ".intercalate (words.map style.quote) := by
  cases style <;> rfl

/-- A separator outside of quotes ends the word before it. -/
theorem read_separator {reader : Reader} {c : Char} (hmode : reader.mode = .plain)
    (hc : isSeparator c = true) :
    reader.read style c = ⟨reader.allWords, none, reader.bare ++ [c], .plain⟩ := by
  have hplain : c ≠ '\'' ∧ c ≠ '"' ∧ c ≠ '\\' := by
    refine ⟨?_, ?_, ?_⟩ <;> rintro rfl <;> exact absurd hc (by decide)
  simp [Reader.read, hmode, hc, Mode.next, Mode.bareChar, hplain]

/-- Texts that are words, with blanks between them, are read as these words. -/
theorem foldl_spelled {texts words : List (List Char)}
    (hspells : List.Forall₂ (SpellsSafely style) texts words) (before : List String)
    (bare : List Char) :
    ∃ reader, ([' '].intercalate texts).foldl (Reader.read style) ⟨before, none, bare, .plain⟩ =
        reader ∧
      reader.mode = .plain ∧ reader.allWords = before ++ words.map String.ofList ∧
      ∃ added, reader.bare = bare ++ added ∧ ∀ c ∈ added, Text.isSafeChar c = true ∨ c = ' ' := by
  induction hspells generalizing before bare with
  | nil => exact ⟨_, rfl, rfl, by simp [Reader.allWords], [], by simp⟩
  | @cons text word texts words hfirst hrest ih =>
    obtain ⟨added, hread, hadded⟩ := hfirst
    have hread := hread before none bare
    rw [Option.getD_none, List.nil_append] at hread
    cases hrest with
    | nil =>
      refine ⟨_, rfl, ?_⟩
      rw [List.intercalate_singleton, hread]
      exact ⟨rfl, by simp [Reader.allWords], added, rfl, fun c hc => .inl (hadded c hc)⟩
    | @cons next other texts words hnext hothers =>
      have hblank : Reader.read style ⟨before, some word, bare ++ added, .plain⟩ ' ' =
          ⟨before ++ [String.ofList word], none, bare ++ added ++ [' '], .plain⟩ :=
        read_separator rfl rfl
      obtain ⟨reader, hreader, hmode, hwords, more, hmore, hsafe⟩ :=
        ih (before ++ [String.ofList word]) (bare ++ added ++ [' '])
      refine ⟨reader, ?_, hmode, by simp [hwords], added ++ ' ' :: more, by simp [hmore], ?_⟩
      · rw [List.intercalate_cons_cons, List.append_assoc, List.foldl_append, hread,
          List.singleton_append, List.foldl_cons, hblank, hreader]
      · intro c hc
        rcases List.mem_append.mp hc with hc | hc
        · exact .inl (hadded c hc)
        · rcases List.mem_cons.mp hc with rfl | hc
          · exact .inr rfl
          · exact hsafe c hc

/-- The characters of words in shell code. -/
theorem toList_quoteAll (style : FunctionStyle) (words : List String) :
    (style.quoteAll words).toList =
      [' '].intercalate (words.map fun word => (style.quote word).toList) := by
  rw [quoteAll_eq, String.toList_intercalate, List.map_map]
  rfl

/-- Words are read back from their form in shell code, which has only safe characters and
spaces outside of quotes. -/
theorem words?_quoteAll (style : FunctionStyle) (words : List String) :
    words? style (style.quoteAll words) = some words ∧
      ∀ c ∈ bareChars style (style.quoteAll words), Text.isSafeChar c = true ∨ c = ' ' := by
  have hspells : List.Forall₂ (SpellsSafely style)
      (words.map fun word => (style.quote word).toList) (words.map String.toList) :=
    List.forall₂_map_left_iff.mpr (List.forall₂_map_right_iff.mpr
      (List.forall₂_same.mpr fun word _ => spellsSafely_quote style word))
  obtain ⟨reader, hreader, hmode, hwords, added, hbare, hsafe⟩ := foldl_spelled hspells [] []
  have hread : readAll style (style.quoteAll words) = reader := by
    rw [readAll, toList_quoteAll]
    exact hreader
  constructor
  · rw [words?, hread, Reader.finish, hmode, hwords]
    simp [Function.comp_def]
  · rw [bareChars, hread, hbare]
    simpa using hsafe

/-- A word in shell code is a list of one word. -/
theorem quoteAll_singleton (style : FunctionStyle) (word : String) :
    style.quoteAll [word] = style.quote word := by
  rw [quoteAll_eq, List.map_singleton, String.intercalate_singleton]

/-- Every list of words is read back from its quoted form, which has nothing outside of quotes
that a shell would expand. In fish it is also read back from a quoted form of its quoted form,
if that is read twice. -/
theorem words?_escapeAll (list : List String) :
    (words? .posix (Text.escapeAll list) = some list ∧
      ∀ c ∈ bareChars .posix (Text.escapeAll list), Text.isSafeChar c = true ∨ c = ' ') ∧
    (words? .fish (Text.escapeFishAll list) = some list ∧
      ∀ c ∈ bareChars .fish (Text.escapeFishAll list), Text.isSafeChar c = true ∨ c = ' ') ∧
    innerWords? .fish (Text.escapeFish (Text.escapeFishAll list)) = some list := by
  have hfish : words? .fish (Text.escapeFishAll list) = some list ∧ _ :=
    words?_quoteAll .fish list
  refine ⟨words?_quoteAll .posix list, hfish, ?_⟩
  have houter := (words?_quoteAll .fish [Text.escapeFishAll list]).1
  rw [quoteAll_singleton] at houter
  have houter : words? .fish (Text.escapeFish (Text.escapeFishAll list)) =
      some [Text.escapeFishAll list] := houter
  rw [innerWords?, houter]
  exact hfish.1

/-- A list with an empty word, quotes, a backslash and blanks. -/
example : Text.escapeFish (Text.escapeFishAll ["", "it's", "a\\ b"]) =
    "'\\'\\' \\'it\\\\\\'s\\' \\'a\\\\\\\\ b\\''" := by
  decide +kernel

end ShellWords
end ShellCompletion
