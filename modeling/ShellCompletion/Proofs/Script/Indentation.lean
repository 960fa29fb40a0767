import ShellCompletion.Proofs.Text.Blank
import ShellCompletion.Proofs.Text.Lines
import ShellCompletion.Proofs.Text.Quoting

/-!
# Quoted words in indented code

Code is moved to the right line by line, without regard to quotes. A list of quoted words is
then read as the words with their own lines moved, so it is read back exactly if no line ends in
a word. The same holds of a list at the end of the body of a helper function.
-/

namespace ShellCompletion

namespace ShellWords

variable {style : FunctionStyle} {width : Nat} {mode : Mode} {chars : List Char}

/-! ## Quotes and lines -/

/-- A text is read as its parts one after the other. -/
theorem Mode.after_append (first second : List Char) :
    mode.after style (first ++ second) = (mode.after style first).after style second :=
  List.foldl_append

/-- What comes after a text depends on how its first character is read. -/
theorem Mode.after_cons (c : Char) (rest : List Char) :
    mode.after style (c :: rest) = (mode.next style c).after style rest :=
  rfl

/-- Blanks neither open nor close quotes. -/
theorem Mode.next_blank (style : FunctionStyle) (mode : Mode) {c : Char}
    (hc : Text.isBlank c = true) :
    mode.next style c = .plain ∧ (mode = .plain ∨ mode = .escaped) ∨
      ∃ quote, mode.next style c = .quoted quote ∧
        (mode = .quoted quote ∨ mode = .slashed quote) := by
  have hplain : c ≠ '\'' ∧ c ≠ '"' ∧ c ≠ '\\' := by
    refine ⟨?_, ?_, ?_⟩ <;> rintro rfl <;> exact absurd hc (by decide)
  rcases mode with _ | _ | quote | quote
  · exact .inl ⟨by simp [next, hplain], .inl rfl⟩
  · exact .inl ⟨rfl, .inr rfl⟩
  · refine .inr ⟨quote, ?_, .inl rfl⟩
    cases quote <;> simp [next, Quote.mark, hplain]
  · exact .inr ⟨quote, rfl, .inr rfl⟩

/-- If no quotes are open behind blanks, none are open before them. -/
theorem Mode.of_after_blanks (hblanks : ∀ c ∈ chars, Text.isBlank c = true)
    (hplain : mode.after style chars = .plain) : mode = .plain ∨ mode = .escaped := by
  induction chars generalizing mode with
  | nil => exact .inl hplain
  | cons c rest ih =>
    obtain ⟨hc, hrest⟩ := List.forall_mem_cons.mp hblanks
    rcases next_blank style mode hc with ⟨-, hmode⟩ | ⟨quote, hquote, -⟩
    · exact hmode
    · rw [after_cons, hquote] at hplain
      rcases ih hrest hplain with hmode | hmode <;> cases hmode

/-- A return before a line feed changes nothing in what comes after. -/
theorem Mode.next_return_lineFeed :
    (mode.next style '\r').next style '\n' = mode.next style '\n' := by
  rcases mode with _ | _ | quote | quote
  · simp [next]
  · simp [next]
  · cases quote <;> simp [next, Quote.mark]
  · cases quote <;> simp [next, Quote.mark]

/-- A space behind a line feed changes nothing in what comes after. -/
theorem Mode.next_lineFeed_space :
    (mode.next style '\n').next style ' ' = mode.next style '\n' := by
  rcases mode with _ | _ | quote | quote
  · simp [next]
  · simp [next]
  · cases quote <;> simp [next, Quote.mark]
  · cases quote <;> simp [next, Quote.mark]

/-- Spaces behind a line feed change nothing in what comes after. -/
theorem Mode.after_lineFeed_spaces (width : Nat) :
    (mode.next style '\n').after style (List.replicate width ' ') = mode.next style '\n' := by
  induction width with
  | zero => rfl
  | succ width ih => rw [List.replicate_succ, after_cons, next_lineFeed_space, ih]

/-- Moving lines closes and opens no quotes. -/
theorem Mode.after_shift : mode.after style (Text.shift width chars) = mode.after style chars := by
  induction chars generalizing mode with
  | nil => rfl
  | cons c rest ih =>
    rw [Text.shift]
    split_ifs with hreturn hfeed hend
    · obtain ⟨rfl, after, rfl⟩ := hreturn
      rw [ih, List.singleton_append, after_cons, after_cons, after_cons, next_return_lineFeed]
    · rw [hfeed, List.nil_append, after_cons, after_cons, ih]
    · rw [hfeed, after_cons, after_cons, after_append, after_lineFeed_spaces, ih]
    · rw [after_cons, after_cons, ih]

/-- Blanks at the beginning of a text open no quotes. -/
theorem Mode.after_dropWhile_isBlank :
    plain.after style (chars.dropWhile Text.isBlank) = plain.after style chars := by
  induction chars with
  | nil => rfl
  | cons c rest ih =>
    by_cases hc : Text.isBlank c = true
    · have hnext : plain.next style c = plain := by
        rcases next_blank style plain hc with ⟨hplain, -⟩ | ⟨quote, -, hmode | hmode⟩
        · exact hplain
        · cases hmode
        · cases hmode
      rw [List.dropWhile_cons_of_pos hc, ih, after_cons, hnext]
    · rw [List.dropWhile_cons_of_neg hc]

/-- A reader has read what its mode says. -/
theorem mode_foldl (reader : Reader) (chars : List Char) :
    (chars.foldl (Reader.read style) reader).mode = reader.mode.after style chars := by
  induction chars generalizing reader with
  | nil => rfl
  | cons c rest ih =>
    have hmode : (reader.read style c).mode = reader.mode.next style c := by
      rw [Reader.read]
      split <;> rfl
    rw [List.foldl_cons, ih, hmode, Mode.after_cons]

/-! ## Lists of words -/

/-- The word that is read of a quoted word whose lines were moved. -/
def shifted (width : Nat) (word : String) : String :=
  String.ofList (Text.shift width word.toList)

/-- Quoting keeps lines. -/
theorem keepsLines_quoteChar (style : FunctionStyle) : Text.KeepsLines style.quoteChar where
  kept c hc := by
    simp only [List.mem_cons, List.not_mem_nil, or_false] at hc
    cases style <;> rcases hc with rfl | rfl | rfl <;> rfl
  others c hc := by
    simp only [List.mem_cons, List.not_mem_nil, or_false, not_or] at hc
    cases style with
    | posix =>
      by_cases hquote : c = '\''
      · subst hquote
        simp [FunctionStyle.quoteChar, Text.posixChar]
      · simp [FunctionStyle.quoteChar, Text.posixChar, hquote, hc]
    | fish =>
      by_cases hquote : c = '\'' ∨ c = '\\'
      · rcases hquote with rfl | rfl <;> simp [FunctionStyle.quoteChar, Text.fishChar]
      · rw [not_or] at hquote
        simp [FunctionStyle.quoteChar, Text.fishChar, hquote, hc]

/-- A quoted word whose lines are moved is read as the word with its lines moved. -/
theorem spellsSafely_shift_quote (word : String) : SpellsSafely style
    (Text.shift width (style.quote word).toList) (Text.shift width word.toList) := by
  rw [toList_quote]
  split
  · rename_i hsafe
    obtain ⟨hne, hchars⟩ := isSafeWord_iff.mp hsafe
    have hfeed : '\n' ∉ word.toList := fun hmem =>
      isOrdinary_of_isSafeChar (hchars _ hmem) (by simp)
    rw [Text.shift_of_notMem hfeed]
    exact spellsSafely_of_safe hne hchars
  · have hshift : Text.shift width (quotedChars style word.toList) =
        quotedChars style (Text.shift width word.toList) := by
      rw [quotedChars, ← List.nil_append ('\'' :: _), Text.shift_append _ (by simp) (by simp),
        Text.shift_append _ (by simp) (by simp), (keepsLines_quoteChar style).shift_flatMap]
      rfl
    rw [hshift]
    exact ⟨[], spells_quotedChars _, by simp⟩

/-- Moving the lines of texts with blanks between them moves their lines. -/
theorem shift_intercalate (texts : List (List Char)) :
    Text.shift width ([' '].intercalate texts) =
      [' '].intercalate (texts.map (Text.shift width)) := by
  induction texts with
  | nil => rfl
  | cons text rest ih =>
    cases rest with
    | nil => simp [List.intercalate_singleton]
    | cons next rest =>
      rw [List.map_cons, List.map_cons, List.intercalate_cons_cons, List.intercalate_cons_cons,
        List.append_assoc, List.append_assoc, List.singleton_append,
        Text.shift_append _ (by simp) (by simp), ih]
      rfl

/-- Between words, quoted words whose lines are moved are read as the words with their lines
moved. -/
theorem foldl_shift_quoteAll (style : FunctionStyle) (width : Nat) (words before : List String)
    (bare : List Char) :
    ∃ reader, (Text.shift width (style.quoteAll words).toList).foldl (Reader.read style)
        ⟨before, none, bare, .plain⟩ = reader ∧
      reader.finish = some (before ++ words.map (shifted width)) := by
  have hspells : List.Forall₂ (SpellsSafely style)
      (words.map fun word => Text.shift width (style.quote word).toList)
      (words.map fun word => Text.shift width word.toList) :=
    List.forall₂_map_left_iff.mpr (List.forall₂_map_right_iff.mpr
      (List.forall₂_same.mpr fun word _ => spellsSafely_shift_quote word))
  obtain ⟨reader, hreader, hmode, hwords, -⟩ := foldl_spelled hspells before bare
  refine ⟨reader, ?_, ?_⟩
  · rw [toList_quoteAll, shift_intercalate, List.map_map]
    exact hreader
  · rw [Reader.finish, hmode, hwords, List.map_map]
    rfl

/-- Spaces between words are no words. -/
theorem foldl_spaces (width : Nat) (before : List String) (bare : List Char) :
    (List.replicate width ' ').foldl (Reader.read style) ⟨before, none, bare, .plain⟩ =
      ⟨before, none, bare ++ List.replicate width ' ', .plain⟩ := by
  induction width generalizing bare with
  | zero => simp
  | succ width ih =>
    have hspace : Reader.read style ⟨before, none, bare, .plain⟩ ' ' =
        ⟨before, none, bare ++ [' '], .plain⟩ := by
      rw [read_separator rfl rfl, Reader.allWords]
      simp
    rw [List.replicate_succ, List.foldl_cons, hspace, ih, List.append_assoc, List.singleton_append]

/-- Words are themselves with their lines moved if they are kept. -/
theorem map_shifted_eq_iff {words : List String} :
    words.map (shifted width) = words ↔ ∀ word ∈ words, Text.IsKept width word := by
  induction words with
  | nil => simp
  | cons word rest ih =>
    have hword : shifted width word = word ↔ Text.IsKept width word := by
      rw [← Text.shift_eq_self_iff, ← String.toList_inj, shifted, String.toList_ofList]
    rw [List.map_cons, List.cons_eq_cons, hword, ih, List.forall_mem_cons]

/-! ## Blanks at the edges -/

/-- A text without blanks at its edges is moved by spaces before its first word, if it has
one. -/
theorem readAll_indent (style : FunctionStyle) {text : String}
    (hedges : Text.HasEdges text.toList) (width : Nat) :
    ∃ bare, readAll style (Text.indent text width) =
      (Text.shift width text.toList).foldl (Reader.read style) ⟨[], none, bare, .plain⟩ := by
  by_cases hne : text.toList = []
  · refine ⟨[], ?_⟩
    have htext : text = "" := String.toList_inj.mp hne
    subst htext
    rfl
  · have hlast : text.toList.getLast? ≠ some '\n' := fun hlast =>
      absurd (hedges.2 _ hlast) (by decide)
    have hfirst : ¬ Text.AtLineEnd text.toList := by
      rintro (⟨rest, hrest⟩ | ⟨rest, hrest⟩)
      · exact absurd (hedges.1 '\n' (by simp [← hrest])) (by decide)
      · exact absurd (hedges.1 '\r' (by simp [← hrest])) (by decide)
    refine ⟨List.replicate width ' ', ?_⟩
    rw [readAll, Text.toList_indent hne hlast hfirst, List.foldl_append, foldl_spaces,
      List.nil_append]

/-- A safe character is no white space. -/
theorem isBlank_of_isSafeChar {c : Char} (hc : Text.isSafeChar c = true) :
    Text.isBlank c = false := by
  rw [← Bool.not_eq_true]
  intro hblank
  have hunsafe : Text.blankCodes.all (fun code => !Text.isSafeChar (Char.ofNat code)) = true := by
    decide
  have hnone := List.all_eq_true.mp hunsafe _ (Text.mem_blankCodes hblank)
  rw [Char.ofNat_toNat, hc] at hnone
  cases hnone

/-- A quoted word has no white space at its edges. -/
theorem hasEdges_quote (style : FunctionStyle) (word : String) :
    (style.quote word).toList ≠ [] ∧ Text.HasEdges (style.quote word).toList := by
  rw [toList_quote]
  split
  · rename_i hsafe
    obtain ⟨hne, hchars⟩ := isSafeWord_iff.mp hsafe
    exact ⟨hne, fun c hc => isBlank_of_isSafeChar (hchars c (List.mem_of_mem_head? hc)),
      fun c hc => isBlank_of_isSafeChar (hchars c (List.mem_of_getLast? hc))⟩
  · refine ⟨by simp [quotedChars], ?_, ?_⟩
    · simp [quotedChars]
      decide
    · simp [quotedChars, List.getLast?_cons]
      decide

/-- Quoted words have no white space at their edges. -/
theorem hasEdges_quoteAll (style : FunctionStyle) (words : List String) :
    Text.HasEdges (style.quoteAll words).toList ∧
      (words ≠ [] → (style.quoteAll words).toList ≠ []) := by
  rw [toList_quoteAll]
  induction words with
  | nil => simp [Text.HasEdges]
  | cons word rest ih =>
    obtain ⟨hne, hfirst, hlast⟩ := hasEdges_quote style word
    cases rest with
    | nil =>
      rw [List.map_singleton, List.intercalate_singleton]
      exact ⟨⟨hfirst, hlast⟩, fun _ => hne⟩
    | cons next rest =>
      obtain ⟨⟨-, hend⟩, hrest⟩ := ih
      rw [List.map_cons] at hend hrest
      rw [List.map_cons, List.map_cons, List.intercalate_cons_cons]
      refine ⟨⟨?_, ?_⟩, fun _ => by simp [hne]⟩
      · rwa [List.append_assoc, List.head?_append_of_ne_nil _ hne]
      · rwa [List.getLast?_append_of_ne_nil _ (hrest (by simp))]

/-! ## Bodies that end in quoted words -/

/-- A text ends between words if no quotes are open and no word has begun. -/
def EndsBetween (style : FunctionStyle) (text : String) : Prop :=
  (readAll style text).mode = .plain ∧ (readAll style text).word = none

instance (style : FunctionStyle) (text : String) : Decidable (EndsBetween style text) :=
  inferInstanceAs (Decidable (_ ∧ _))

/-- Behind a text that ends between words no quotes are open. -/
theorem EndsBetween.after_eq {text : String} (htext : EndsBetween style text) :
    Mode.plain.after style text.toList = .plain :=
  (mode_foldl {} text.toList).symm.trans htext.1

/-- A text that ends between words is empty or has a separator at its end. -/
theorem EndsBetween.cases {text : String} (htext : EndsBetween style text) :
    text.toList = [] ∨ ∃ start c, text.toList = start ++ [c] ∧
      Mode.plain.after style start = .plain ∧ isSeparator c = true := by
  rcases List.eq_nil_or_concat' text.toList with hnil | ⟨start, c, hchars⟩
  · exact .inl hnil
  · have hword := htext.2
    rw [readAll, hchars, List.foldl_append, List.foldl_cons, List.foldl_nil, Reader.read] at hword
    split at hword
    · rename_i hseparator
      rw [mode_foldl] at hseparator
      exact .inr ⟨start, c, hchars, hseparator⟩
    · cases hword

/-- Spaces follow a line feed at the end of a text. -/
theorem exists_shift_concat (width : Nat) (start : List Char) :
    ∃ kept, Text.shift width (start ++ ['\n']) = kept ++ '\n' :: List.replicate width ' ' := by
  induction start with
  | nil => exact ⟨[], by simp [Text.shift, Text.AtLineEnd]⟩
  | cons c start ih =>
    obtain ⟨kept, hkept⟩ := ih
    rw [List.cons_append, Text.shift, hkept]
    split_ifs
    · exact ⟨kept, rfl⟩
    · exact ⟨'\n' :: kept, rfl⟩
    · exact ⟨'\n' :: (List.replicate width ' ' ++ kept), by simp⟩
    · exact ⟨c :: kept, rfl⟩

/-- A separator at the end of a text is followed by spaces or stays where it is, so there is a
separator at the end after lines were moved. -/
theorem exists_shift_separator {start : List Char} {c : Char}
    (hstart : Mode.plain.after style start = .plain) (hc : isSeparator c = true)
    (hwidth : 0 < width) : ∃ kept last, Text.shift width (start ++ [c]) = kept ++ [last] ∧
      Mode.plain.after style kept = .plain ∧ isSeparator last = true := by
  by_cases hfeed : c = '\n'
  · subst hfeed
    obtain ⟨kept, hkept⟩ := exists_shift_concat width start
    have hmode : (Mode.plain.after style kept).next style '\n' = .plain := by
      rw [← Mode.after_lineFeed_spaces width, ← Mode.after_cons, ← Mode.after_append, ← hkept,
        Mode.after_shift, Mode.after_append, hstart]
      rfl
    obtain ⟨fewer, rfl⟩ := Nat.exists_eq_succ_of_ne_zero hwidth.ne'
    refine ⟨kept ++ '\n' :: List.replicate fewer ' ', ' ', ?_, ?_, rfl⟩
    · rw [hkept, List.replicate_succ', List.append_assoc, List.cons_append]
    · rw [Mode.after_append, Mode.after_cons, Mode.after_lineFeed_spaces, hmode]
  · have hreturn : c ≠ '\r' := by
      rintro rfl
      exact absurd hc (by decide)
    refine ⟨_, c, Text.shift_append _ hfeed hreturn [], ?_, hc⟩
    rw [Mode.after_shift, hstart]

/-- Code that ends between words does so after its lines were moved, too. -/
theorem exists_between {text : String} (htext : EndsBetween style text) (hwidth : 0 < width)
    (bare : List Char) :
    ∃ before after, (Text.shift width (text.toList.dropWhile Text.isBlank)).foldl
        (Reader.read style) ⟨[], none, bare, .plain⟩ = ⟨before, none, after, .plain⟩ := by
  obtain hnil | ⟨start, c, hchars, hstart, hc⟩ := htext.cases
  · exact ⟨[], bare, by rw [hnil]; rfl⟩
  · have hblank : Text.isBlank c = true := by
      simp only [isSeparator, Bool.or_eq_true, beq_iff_eq] at hc
      rcases hc with (rfl | rfl) | rfl <;> rfl
    rw [hchars, List.dropWhile_append]
    split
    · exact ⟨[], bare, by simp [hblank, Text.shift]⟩
    · rw [← Mode.after_dropWhile_isBlank] at hstart
      obtain ⟨kept, last, hshift, hkept, hlast⟩ := exists_shift_separator hstart hc hwidth
      rw [hshift, List.foldl_append]
      exact ⟨_, _, read_separator ((mode_foldl _ _).trans hkept) hlast⟩

/-- If no word comes behind code that ends between words, the code without the blanks at its
edges is read to its end. -/
theorem exists_finish (width : Nat) {text : String} (htext : EndsBetween style text)
    (bare : List Char) :
    ∃ words, ((Text.shift width (Text.trim text).toList).foldl (Reader.read style)
      ⟨[], none, bare, .plain⟩).finish = some words := by
  obtain ⟨behind, hkept, hbehind⟩ := Text.exists_trim text
  have hplain : (Mode.plain.after style (Text.trim text).toList).after style behind = .plain := by
    rw [← Mode.after_append, ← hkept, Mode.after_dropWhile_isBlank, htext.after_eq]
  obtain hmode | hmode := Mode.of_after_blanks hbehind hplain <;>
    exact ⟨_, by rw [Reader.finish, mode_foldl, Mode.after_shift, hmode]⟩

/-- Lines are moved up to characters without white space at their edges, and in these. -/
theorem shift_append_of_hasEdges {last : List Char} (hne : last ≠ []) (hedges : Text.HasEdges last)
    (start : List Char) :
    Text.shift width (start ++ last) = Text.shift width start ++ Text.shift width last := by
  obtain ⟨first, rest, rfl⟩ := List.exists_cons_of_ne_nil hne
  have hblank : Text.isBlank first = false := hedges.1 first rfl
  have hfeed : first ≠ '\n' := by
    rintro rfl
    exact absurd hblank (by decide)
  have hreturn : first ≠ '\r' := by
    rintro rfl
    exact absurd hblank (by decide)
  rw [Text.shift_append start hfeed hreturn]
  exact congrArg _ (Text.shift_append [] hfeed hreturn rest).symm

/-- The words of a body that ends in quoted words end in these, with their lines moved. -/
theorem exists_words?_indent {lead : String} (hlead : EndsBetween style lead)
    (words : List String) (hwidth : 0 < width) :
    ∃ before, words? style (Text.indent (Text.trim (lead ++ style.quoteAll words)) width) =
      some (before ++ words.map (shifted width)) := by
  obtain ⟨bare, hread⟩ := readAll_indent style
    (Text.hasEdges_trim (lead ++ style.quoteAll words)) width
  rw [words?, hread]
  obtain ⟨hedges, hne⟩ := hasEdges_quoteAll style words
  by_cases hwords : words = []
  · subst hwords
    have hnone : lead ++ style.quoteAll [] = lead := by
      rw [quoteAll_eq]
      exact String.append_empty
    obtain ⟨before, hbefore⟩ := exists_finish width hlead bare
    exact ⟨before, by rw [hnone, hbefore, List.map_nil, List.append_nil]⟩
  · obtain ⟨before, after, hbefore⟩ := exists_between hlead hwidth bare
    obtain ⟨reader, hreader, hfinish⟩ := foldl_shift_quoteAll style width words before after
    refine ⟨before, ?_⟩
    rw [Text.toList_trim_append String.toList_append (hne hwords) hedges,
      shift_append_of_hasEdges (hne hwords) hedges, List.foldl_append, hbefore, hreader, hfinish]

/-- The words of a list are moved with the list. -/
theorem words?_indent_quoteAll (style : FunctionStyle) (words : List String) (width : Nat) :
    words? style (Text.indent (style.quoteAll words) width) =
      some (words.map (shifted width)) := by
  obtain ⟨bare, hread⟩ := readAll_indent style (hasEdges_quoteAll style words).1 width
  obtain ⟨reader, hreader, hfinish⟩ :=
    foldl_shift_quoteAll style width words [] bare
  rw [words?, hread, hreader, hfinish, List.nil_append]

/-- A function that is made up is in use with its body trimmed. -/
theorem exists_mem_generate (helpers : Helpers) (hint body : String) :
    ∃ helper ∈ (helpers.generate hint body).2.used,
      helper.name = (helpers.generate hint body).1 ∧ helper.body = Text.trim body := by
  rw [Helpers.generate]
  split
  · rename_i helper hfind
    exact ⟨helper, List.mem_of_find?_eq_some hfind, rfl, by simpa using List.find?_some hfind⟩
  · exact ⟨_, List.mem_append_right _ List.mem_cons_self, rfl, rfl⟩

/-- A list of quoted words that is moved to the right is read back exactly if all its words are
kept, and so is one at the end of the body of a helper function, in the function's definition.
A helper function that is made up has the body that it was made up for. -/
theorem words?_indent_iff (words : List String) :
    (∀ width, words? .posix (Text.indent (Text.escapeAll words) width) = some words ↔
      ∀ word ∈ words, Text.IsKept width word) ∧
    (∀ (helpers : Helpers) (lead : String), ∀ helper ∈ helpers.used,
      EndsBetween helpers.style lead →
      helper.body = Text.trim (lead ++ helpers.style.quoteAll words) →
      helpers.style.define helper.name (Text.indent helper.body 2) ∈ helpers.code ∧
        ((∃ before, words? helpers.style (Text.indent helper.body 2) = some (before ++ words)) ↔
          ∀ word ∈ words, Text.IsKept 2 word)) ∧
    ∀ (helpers : Helpers) (hint lead : String),
      let body := lead ++ helpers.style.quoteAll words
      ∃ helper ∈ (helpers.generate hint body).2.used,
        helper.name = (helpers.generate hint body).1 ∧ helper.body = Text.trim body := by
  refine ⟨fun width => ?_, fun helpers lead helper hused hlead hbody => ?_,
    fun helpers hint lead => exists_mem_generate helpers hint _⟩
  · have hread := words?_indent_quoteAll .posix words width
    rw [FunctionStyle.quoteAll] at hread
    rw [hread, Option.some_inj, map_shifted_eq_iff]
  · refine ⟨List.mem_map_of_mem hused, ?_⟩
    obtain ⟨before, hread⟩ := exists_words?_indent hlead words Nat.two_pos
    rw [hbody, hread, ← map_shifted_eq_iff]
    constructor
    · rintro ⟨other, hsame⟩
      have hlength : (words.map (shifted 2)).length = words.length := List.length_map _
      exact (List.append_inj' (Option.some_inj.mp hsame) hlength).2
    · intro hsame
      exact ⟨before, by rw [hsame]⟩

/-- The values of an option, one of which has a blank, are read back from a helper function. -/
theorem words?_indent_iff_values :
    let helpers := ((Helpers.new "prog" .posix).generate "values"
      "_values -s , mode fast 'very slow'").2
    let body := "_values -s , mode fast 'very slow'"
    ⟨"_prog_values", "_prog_values", body⟩ ∈ helpers.used ∧
      EndsBetween .posix "_values -s , mode " ∧
      body = Text.trim ("_values -s , mode " ++ Text.escapeAll ["fast", "very slow"]) ∧
      "_prog_values() \x7b\n  _values -s , mode fast 'very slow'\n\x7d" ∈ helpers.code ∧
      ∃ before, words? .posix (Text.indent body 2) = some (before ++ ["fast", "very slow"]) := by
  have hvalues := (words?_indent_iff ["fast", "very slow"]).2.1
    ((Helpers.new "prog" .posix).generate "values" "_values -s , mode fast 'very slow'").2
    "_values -s , mode "
    ⟨"_prog_values", "_prog_values", "_values -s , mode fast 'very slow'"⟩
    (by decide +kernel) (by decide +kernel) (by decide +kernel)
  exact ⟨by decide +kernel, by decide +kernel, by decide +kernel, by decide +kernel,
    hvalues.2.mpr (by decide +kernel)⟩

/-- A value with a line feed gets spaces into its second line. -/
theorem words?_indent_ne_of_lineFeed :
    words? .posix (Text.indent (Text.escapeAll ["a\nb"]) 2) = some ["a\n  b"] ∧
      words? .posix (Text.indent (Text.escapeAll ["a\nb"]) 2) ≠ some ["a\nb"] := by
  decide +kernel

end ShellWords
end ShellCompletion
