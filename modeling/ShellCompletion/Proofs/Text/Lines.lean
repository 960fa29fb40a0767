import Mathlib.Data.List.Basic
import ShellCompletion.Text.Lines

/-!
# Moving lines to the right

What moving the lines of a text does to its characters: spaces come in behind line feeds, and
returns before line feeds are lost. A part of the text is moved in the same way wherever it
stands, and it stays what it is only if no line ends in it.
-/

namespace ShellCompletion.Text

variable {width : Nat} {chars rest : List Char} {c : Char}

/-- Whether a line ends at the beginning of the characters. -/
def AtLineEnd (chars : List Char) : Prop :=
  ['\n'] <+: chars ∨ ['\r', '\n'] <+: chars

instance (chars : List Char) : Decidable (AtLineEnd chars) :=
  inferInstanceAs (Decidable (_ ∨ _))

/-- The characters as they stand within a text whose lines are moved: spaces follow every line
feed that has something behind it on its line, and returns before line feeds are gone. -/
def shift (width : Nat) : List Char → List Char
  | [] => []
  | c :: rest =>
    if c = '\r' ∧ ['\n'] <+: rest then shift width rest
    else if c = '\n' then
      '\n' :: ((if AtLineEnd rest then [] else List.replicate width ' ') ++ shift width rest)
    else c :: shift width rest

/-! ## Lines -/

/-- The lines of the characters. -/
def charLines (chars : List Char) : List (List Char) :=
  linesOfPieces (chars.splitOnP (· == '\n'))

/-- The lines with a character put before the first one. -/
def consLine (c : Char) : List (List Char) → List (List Char)
  | [] => [[c]]
  | line :: rest => (c :: line) :: rest

/-- Only the end of a line loses its return. -/
theorem dropReturn_cons (hrest : rest ≠ []) : dropReturn (c :: rest) = c :: dropReturn rest := by
  obtain ⟨start, last, rfl⟩ : ∃ start last, rest = start ++ [last] :=
    ⟨rest.dropLast, rest.getLast hrest, (List.dropLast_concat_getLast hrest).symm⟩
  by_cases hlast : last = '\r'
  · subst hlast
    simp [dropReturn]
  · simp [dropReturn, hlast]

/-- A line feed ends a line. -/
theorem charLines_lineFeed (rest : List Char) :
    charLines ('\n' :: rest) = [] :: charLines rest := by
  obtain ⟨first, others, hsplit⟩ :=
    List.exists_cons_of_ne_nil (List.splitOnP_ne_nil (· == '\n') rest)
  simp [charLines, List.splitOnP_cons_eq_if_modifyHead, hsplit, linesOfPieces, dropReturn]

/-- A return before a line feed belongs to the end of the line. -/
theorem charLines_return (rest : List Char) :
    charLines ('\r' :: '\n' :: rest) = charLines ('\n' :: rest) := by
  obtain ⟨first, others, hsplit⟩ :=
    List.exists_cons_of_ne_nil (List.splitOnP_ne_nil (· == '\n') rest)
  simp [charLines, List.splitOnP_cons_eq_if_modifyHead, hsplit, linesOfPieces, dropReturn]

/-- Any other character belongs to the first line. -/
theorem charLines_cons (hc : c ≠ '\n') (hreturn : ¬ (c = '\r' ∧ ['\n'] <+: rest)) :
    charLines (c :: rest) = consLine c (charLines rest) := by
  cases rest with
  | nil => simp [charLines, List.splitOnP_cons_eq_if_modifyHead, hc, linesOfPieces, consLine]
  | cons d rest =>
    obtain ⟨first, others, hsplit⟩ :=
      List.exists_cons_of_ne_nil (List.splitOnP_ne_nil (· == '\n') rest)
    by_cases hd : d = '\n'
    · subst hd
      have hc' : c ≠ '\r' := by simpa using hreturn
      rw [charLines_lineFeed]
      simp [charLines, List.splitOnP_cons_eq_if_modifyHead, hc, hsplit, linesOfPieces, dropReturn,
        consLine, hc']
    · cases others with
      | nil => simp [charLines, List.splitOnP_cons_eq_if_modifyHead, hc, hd, hsplit,
          linesOfPieces, consLine]
      | cons second others => simp [charLines, List.splitOnP_cons_eq_if_modifyHead, hc, hd,
          hsplit, linesOfPieces, consLine, dropReturn_cons]

/-- A line moved to the right, if it holds something. -/
def movedLine (width : Nat) (line : List Char) : List Char :=
  if line = [] then [] else List.replicate width ' ' ++ line

/-- Behind the first line, the lines of a text are moved as its characters are. -/
theorem exists_charLines (width : Nat) (hne : chars ≠ []) (hlast : chars.getLast? ≠ some '\n') :
    ∃ first others, charLines chars = first :: others ∧ (first = [] ↔ AtLineEnd chars) ∧
      shift width chars =
        first ++ others.flatMap fun line => '\n' :: movedLine width line := by
  induction chars with
  | nil => exact absurd rfl hne
  | cons c rest ih =>
    by_cases hrest : rest = []
    · subst hrest
      have hc : c ≠ '\n' := by simpa using hlast
      refine ⟨[c], [], ?_, ?_, ?_⟩
      · rw [charLines_cons hc (by simp)]
        rfl
      · simp [AtLineEnd, Ne.symm hc]
      · simp [shift, hc]
    · obtain ⟨first, others, hlines, hfirst, hshift⟩ :=
        ih hrest (by rwa [List.getLast?_cons_of_ne_nil hrest] at hlast)
      by_cases hreturn : c = '\r' ∧ ['\n'] <+: rest
      · obtain ⟨rfl, after, rfl⟩ := hreturn
        refine ⟨first, others, by simpa [charLines_return] using hlines, ?_, ?_⟩
        · simpa [AtLineEnd] using hfirst
        · simpa [shift] using hshift
      · by_cases hc : c = '\n'
        · subst hc
          refine ⟨[], first :: others, by rw [charLines_lineFeed, hlines], by simp [AtLineEnd], ?_⟩
          simp only [shift, hreturn, if_false, if_true, hshift, List.flatMap_cons, movedLine,
            hfirst, List.nil_append]
          by_cases hend : AtLineEnd rest
          · simp [hend, hfirst.mpr hend]
          · simp [hend]
        · refine ⟨c :: first, others, ?_, ?_, ?_⟩
          · rw [charLines_cons hc hreturn, hlines]
            rfl
          · simp only [reduceCtorEq, false_iff, AtLineEnd, List.cons_prefix_cons, not_or, not_and]
            exact ⟨fun heq => absurd heq.symm hc, fun heq => (hreturn ⟨heq.symm, ·⟩)⟩
          · simp [shift, hreturn, hc, hshift]

/-- Lines put under each other, behind the first one. -/
theorem intercalate_cons_flatMap (mark first : List Char) (others : List (List Char)) :
    mark.intercalate (first :: others) = first ++ others.flatMap (mark ++ ·) := by
  induction others generalizing first with
  | nil => simp [List.intercalate_singleton]
  | cons second others ih =>
    rw [List.intercalate_cons_cons, ih, List.flatMap_cons]
    simp

/-- Moving the lines of a text moves its first line and shifts its characters, if the text does
not begin or end with the end of a line. -/
theorem toList_indent {text : String} (hne : text.toList ≠ [])
    (hlast : text.toList.getLast? ≠ some '\n') (hfirst : ¬ AtLineEnd text.toList) (width : Nat) :
    (indent text width).toList = List.replicate width ' ' ++ shift width text.toList := by
  obtain ⟨first, others, hlines, hempty, hshift⟩ := exists_charLines width hne hlast
  have hmoved : (indent text width).toList =
      ['\n'].intercalate ((charLines text.toList).map (movedLine width)) := by
    rw [indent, unlines, lines, String.toList_intercalate, List.map_map, List.map_map]
    congr 1
    apply List.map_congr_left
    intro line _
    by_cases hline : line = []
    · simp [movedLine, hline]
    · simp [movedLine, hline]
  rw [hmoved, hlines, List.map_cons, intercalate_cons_flatMap, hshift, List.flatMap_map,
    movedLine, if_neg (mt hempty.mp hfirst), List.append_assoc]
  rfl

/-! ## Parts of a text -/

/-- Characters of which no line end is one are not shifted, whatever comes behind them. -/
theorem shift_append_of_notMem {start : List Char} (hstart : ∀ c ∈ start, c ≠ '\n' ∧ c ≠ '\r')
    (rest : List Char) : shift width (start ++ rest) = start ++ shift width rest := by
  induction start with
  | nil => rfl
  | cons c start ih =>
    obtain ⟨⟨hfeed, hreturn⟩, hrest⟩ := List.forall_mem_cons.mp hstart
    simp [shift, hfeed, hreturn, ih hrest]

/-- A text is shifted in parts, if the second one does not begin like the end of a line. -/
theorem shift_append (start : List Char) (hfeed : c ≠ '\n') (hreturn : c ≠ '\r')
    (rest : List Char) :
    shift width (start ++ c :: rest) = shift width start ++ c :: shift width rest := by
  induction start with
  | nil => simp [shift, hfeed, hreturn]
  | cons d start ih =>
    have hnext : ['\n'] <+: start ++ c :: rest ↔ ['\n'] <+: start := by
      cases start <;> simp [Ne.symm hfeed]
    have hend : AtLineEnd (start ++ c :: rest) ↔ AtLineEnd start := by
      rcases start with _ | ⟨e, _ | ⟨f, start⟩⟩ <;>
        simp [AtLineEnd, Ne.symm hfeed, Ne.symm hreturn]
    simp only [List.cons_append, shift, hnext, hend, ih]
    split_ifs <;> simp

/-- Characters are written in a way that keeps lines: line ends and spaces are written as
themselves, and no other character is written with a line end. -/
structure KeepsLines (write : Char → List Char) : Prop where
  /-- Line ends and spaces. -/
  kept : ∀ c ∈ ['\n', '\r', ' '], write c = [c]
  /-- Other characters. -/
  others : ∀ c ∉ ['\n', '\r', ' '], write c ≠ [] ∧ ∀ d ∈ write c, d ≠ '\n' ∧ d ≠ '\r'

namespace KeepsLines

variable {write : Char → List Char}

/-- A line feed is written as itself. -/
theorem lineFeed (hwrite : KeepsLines write) : write '\n' = ['\n'] :=
  hwrite.kept _ (by simp)

/-- A return is written as itself. -/
theorem carriageReturn (hwrite : KeepsLines write) : write '\r' = ['\r'] :=
  hwrite.kept _ (by simp)

/-- Spaces are written as themselves. -/
theorem spaces (hwrite : KeepsLines write) (width : Nat) :
    (List.replicate width ' ').flatMap write = List.replicate width ' ' := by
  have hspace : write ' ' = [' '] := hwrite.kept _ (by simp)
  induction width with
  | zero => rfl
  | succ width ih => rw [List.replicate_succ, List.flatMap_cons, ih, hspace, List.singleton_append]

/-- What is written begins with a line feed or a return only if it is one. -/
theorem exists_cons (hwrite : KeepsLines write) (c : Char) :
    ∃ first rest, write c = first :: rest ∧ (first = '\n' ↔ c = '\n') ∧
      (first = '\r' ↔ c = '\r') := by
  by_cases hc : c ∈ ['\n', '\r', ' ']
  · exact ⟨c, [], hwrite.kept c hc, Iff.rfl, Iff.rfl⟩
  · obtain ⟨hne, hplain⟩ := hwrite.others c hc
    obtain ⟨first, rest, hfirst⟩ := List.exists_cons_of_ne_nil hne
    obtain ⟨hfeed, hreturn⟩ := hplain first (by simp [hfirst])
    simp only [List.mem_cons, List.not_mem_nil, or_false, not_or] at hc
    exact ⟨first, rest, hfirst, by simp [hfeed, hc], by simp [hreturn, hc]⟩

/-- What is written begins with a line feed if the characters do. -/
theorem lineFeed_prefix_iff (hwrite : KeepsLines write) (rest : List Char) :
    ['\n'] <+: rest.flatMap write ↔ ['\n'] <+: rest := by
  cases rest with
  | nil => simp
  | cons d rest =>
    obtain ⟨first, others, hfirst, hfeed, -⟩ := hwrite.exists_cons d
    simp [hfirst, eq_comm, hfeed]

/-- What is written begins with the end of a line if the characters do. -/
theorem atLineEnd_iff (hwrite : KeepsLines write) (rest : List Char) :
    AtLineEnd (rest.flatMap write) ↔ AtLineEnd rest := by
  rw [AtLineEnd, AtLineEnd, hwrite.lineFeed_prefix_iff]
  cases rest with
  | nil => simp
  | cons d rest =>
    by_cases hd : d = '\r'
    · subst hd
      simp [hwrite.carriageReturn, hwrite.lineFeed_prefix_iff]
    · obtain ⟨first, others, hfirst, -, hreturn⟩ := hwrite.exists_cons d
      have hne : first ≠ '\r' := mt hreturn.mp hd
      simp [hfirst, Ne.symm hne, Ne.symm hd]

/-- Writing characters commutes with shifting them. -/
theorem shift_flatMap (hwrite : KeepsLines write) (chars : List Char) :
    shift width (chars.flatMap write) = (shift width chars).flatMap write := by
  induction chars with
  | nil => rfl
  | cons c rest ih =>
    rw [List.flatMap_cons]
    by_cases hc : c ∈ ['\n', '\r', ' ']
    · rw [hwrite.kept c hc, List.singleton_append]
      simp only [shift, hwrite.lineFeed_prefix_iff, hwrite.atLineEnd_iff, ih]
      split_ifs with hreturn hfeed hstart
      · rfl
      · simp [hwrite.lineFeed]
      · simp [hwrite.lineFeed, hwrite.spaces]
      · rw [List.flatMap_cons, hwrite.kept c hc, List.singleton_append]
    · have hplain := (hwrite.others c hc).2
      simp only [List.mem_cons, List.not_mem_nil, or_false, not_or] at hc
      rw [shift_append_of_notMem hplain, ih]
      simp [shift, hc]

end KeepsLines

/-! ## Texts that stay as they are -/

/-- A text that moving lines does not change wherever it stands in them: it has no line feed,
or, if lines are not moved by any space, none behind a return. -/
def IsKept (width : Nat) (text : String) : Prop :=
  if width = 0 then ¬ ['\r', '\n'] <:+: text.toList else '\n' ∉ text.toList

instance (width : Nat) (text : String) : Decidable (IsKept width text) :=
  inferInstanceAs (Decidable (if width = 0 then _ else _))

/-- Without a line feed nothing changes. -/
theorem shift_of_notMem (hchars : '\n' ∉ chars) : shift width chars = chars := by
  induction chars with
  | nil => rfl
  | cons c rest ih =>
    rw [List.mem_cons, not_or] at hchars
    have hnext : ¬ ['\n'] <+: rest := fun hbegin =>
      hchars.2 (hbegin.subset List.mem_cons_self)
    simp [shift, hnext, Ne.symm hchars.1, ih hchars.2]

/-- No space is lost. -/
theorem count_space_le (width : Nat) (chars : List Char) :
    chars.count ' ' ≤ (shift width chars).count ' ' := by
  induction chars with
  | nil => exact Nat.le_refl _
  | cons c rest ih =>
    rw [shift]
    split_ifs with hreturn hfeed hend
    · simpa [hreturn.1] using ih
    · simpa [hfeed] using ih
    · simpa [hfeed] using Nat.le_add_left_of_le ih
    · simpa [List.count_cons] using ih

/-- Spaces come in behind the last line feed, at the latest. -/
theorem count_space_add_le (width : Nat) (hchars : '\n' ∈ chars) :
    chars.count ' ' + width ≤ (shift width chars).count ' ' := by
  induction chars with
  | nil => cases hchars
  | cons c rest ih =>
    rw [shift]
    split_ifs with hreturn hfeed hend
    · simpa [hreturn.1] using ih (hreturn.2.subset List.mem_cons_self)
    · have hrest : '\n' ∈ rest := by
        rcases hend with hbegin | hbegin <;> exact hbegin.subset (by simp)
      simpa [hfeed] using ih hrest
    · have hrest := count_space_le width rest
      simp only [hfeed, List.count_cons, List.count_append, List.count_replicate_self]
      simp
      omega
    · have hrest : '\n' ∈ rest := (List.mem_cons.mp hchars).resolve_left (Ne.symm hfeed)
      have hspaces := ih hrest
      simp only [List.count_cons]
      omega

/-- Without spaces to put in, characters only get lost. -/
theorem length_shift_zero_le (chars : List Char) : (shift 0 chars).length ≤ chars.length := by
  induction chars with
  | nil => exact Nat.le_refl _
  | cons c rest ih =>
    rw [shift]
    split_ifs <;> simp <;> omega

/-- Without spaces to put in, characters stay as they are if no line feed comes behind a
return. -/
theorem shift_zero_eq_self_iff : shift 0 chars = chars ↔ ¬ ['\r', '\n'] <:+: chars := by
  induction chars with
  | nil => simp [shift]
  | cons c rest ih =>
    rw [List.infix_cons_iff, List.cons_prefix_cons, not_or, ← ih, shift]
    by_cases hreturn : c = '\r' ∧ ['\n'] <+: rest
    · obtain ⟨rfl, hnext⟩ := hreturn
      have hlength := length_shift_zero_le rest
      simp only [hnext, and_self, if_true, not_true, false_and, iff_false]
      intro hsame
      rw [hsame, List.length_cons] at hlength
      omega
    · have hother : ¬ ('\r' = c ∧ ['\n'] <+: rest) := fun h => hreturn ⟨h.1.symm, h.2⟩
      rw [if_neg hreturn]
      split_ifs with hfeed <;> simp [hother, hfeed]

/-- The characters of a text stay as they are if the text is kept. -/
theorem shift_eq_self_iff {text : String} :
    shift width text.toList = text.toList ↔ IsKept width text := by
  rw [IsKept]
  split_ifs with hwidth
  · rw [hwidth]
    exact shift_zero_eq_self_iff
  · refine ⟨fun hsame hfeed => ?_, shift_of_notMem⟩
    have hspaces := count_space_add_le width hfeed
    rw [hsame] at hspaces
    omega

end ShellCompletion.Text
