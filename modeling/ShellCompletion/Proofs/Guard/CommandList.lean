import Mathlib.Data.List.Basic
import ShellCompletion.Guard.Render

/-!
# Command lists

How a shell reads commands joined by `&&` and `||`. The text is cut into words and
operators. Both operators join the command that follows to everything before them, an
exclamation mark negates the next command or group only, and a group is read like a list
of its own whose value counts as that of one command.
-/

namespace ShellCompletion.CommandList

/-- The syntax that a command list is written in. -/
inductive Dialect where
  /-- The syntax of bash and zsh. -/
  | posix
  /-- The syntax of fish. -/
  | fish
deriving Repr, DecidableEq

namespace Dialect

/-- How commands are grouped. -/
def grouping : Dialect → Grouping
  | posix => .posix
  | fish => .fish

/-- The word that opens a group. -/
def opening : Dialect → String
  | posix => "\x7b"
  | fish => "begin"

/-- The word that closes a group. -/
def closing : Dialect → String
  | posix => "\x7d"
  | fish => "end"

/-- The words that are no commands. -/
def reserved (dialect : Dialect) : List String :=
  ["!", dialect.opening, dialect.closing]

/-- Whether a backslash keeps a mark from ending a quoted text that starts with it. -/
def escapesIn (dialect : Dialect) (mark : Char) : Bool :=
  mark == '"' || dialect == fish

end Dialect

/-- How a command is joined to what is before it. -/
inductive Connective where
  /-- The command is run if what is before it succeeds. -/
  | and
  /-- The command is run if what is before it fails. -/
  | or
deriving Repr, DecidableEq

/-- The value of a command joined to what is before it. -/
def Connective.apply : Connective → Bool → Bool → Bool
  | and, before, value => before && value
  | or, before, value => before || value

/-- How the connective is written. -/
def Connective.text : Connective → String
  | and => "&&"
  | or => "||"

/-- A part of the text of a command list. -/
inductive Token where
  /-- A word, with its quotes. -/
  | word (text : String)
  /-- A connective. -/
  | connective (connective : Connective)
  /-- The end of a command. -/
  | semicolon
  /-- Any other operator. -/
  | operator (mark : Char)
deriving Repr, DecidableEq

/-! ## Words and operators -/

/-- What the character that is read next belongs to. -/
inductive Mode where
  /-- A word or an operator. -/
  | plain
  /-- An operator that started with a mark. -/
  | operator (mark : Char)
  /-- A text between quotes. -/
  | quoted (mark : Char)
  /-- A backslash, between the quotes if there are any. -/
  | escaped (mark : Option Char)
  /-- A comment. -/
  | comment
deriving Repr, DecidableEq

/-- What was found in a text so far. -/
structure Lexer where
  /-- The parts that are complete. -/
  tokens : List Token := []
  /-- The word that is being read. -/
  word : List Char := []
  /-- What comes next. -/
  mode : Mode := .plain
  /-- How many parentheses are open. -/
  depth : Nat := 0
deriving Repr, DecidableEq

namespace Lexer

/-- The character belongs to the word. -/
def push (lexer : Lexer) (c : Char) (mode : Mode) : Lexer :=
  { lexer with word := lexer.word ++ [c], mode }

/-- The word that is being read, if there is one. -/
def lastWord (lexer : Lexer) : List Token :=
  if lexer.word = [] then [] else [.word (String.ofList lexer.word)]

/-- The word is complete, and some tokens follow it. -/
def emit (lexer : Lexer) (tokens : List Token) (mode : Mode) : Lexer :=
  { lexer with tokens := lexer.tokens ++ lexer.lastWord ++ tokens, word := [], mode }

/-- Reads a character outside of quotes. -/
def readPlain (lexer : Lexer) (c : Char) : Lexer :=
  if c = '\\' then lexer.push c (.escaped none)
  else if c = '\'' ∨ c = '"' then lexer.push c (.quoted c)
  else if c = '(' then { lexer.push c .plain with depth := lexer.depth + 1 }
  else if c = ')' then { lexer.push c .plain with depth := lexer.depth - 1 }
  else if 0 < lexer.depth then lexer.push c .plain
  else if c = ' ' ∨ c = '\t' then lexer.emit [] .plain
  else if c = ';' ∨ c = '\n' then lexer.emit [.semicolon] .plain
  else if c = '&' ∨ c = '|' then lexer.emit [] (.operator c)
  else if c = '#' ∧ lexer.word = [] then lexer.emit [] .comment
  else lexer.push c .plain

/-- The operator of two equal marks. -/
def double (mark : Char) : Token :=
  .connective (if mark = '&' then .and else .or)

/-- Reads a character. -/
def read (dialect : Dialect) (lexer : Lexer) (c : Char) : Lexer :=
  match lexer.mode with
  | .plain => lexer.readPlain c
  | .operator mark =>
    if c = mark then lexer.emit [double mark] .plain
    else (lexer.emit [.operator mark] .plain).readPlain c
  | .quoted mark =>
    lexer.push c (if c = mark then .plain
      else if c = '\\' ∧ dialect.escapesIn mark then .escaped (some mark) else .quoted mark)
  | .escaped none => lexer.push c .plain
  | .escaped (some mark) => lexer.push c (.quoted mark)
  | .comment => lexer

/-- The tokens at the end of the text, if no quote or parenthesis is open. -/
def finish (lexer : Lexer) : Option (List Token) :=
  match lexer.mode, lexer.depth with
  | .plain, 0 => some (lexer.tokens ++ lexer.lastWord)
  | _, _ => none

end Lexer

/-- The words and operators of a text, if no quote or parenthesis is left open. -/
def tokens? (dialect : Dialect) (text : String) : Option (List Token) :=
  (text.toList.foldl (Lexer.read dialect) {}).finish

/-! ## Values -/

/-- What happens to the value of the next command. -/
structure Pending where
  /-- The value of what is before the command, and how the command is joined to it. -/
  joined : Option (Bool × Connective) := none
  /-- Whether the command is negated. -/
  negated : Bool := false
deriving Repr, DecidableEq

/-- The value of a list with one more command. -/
def Pending.result (pending : Pending) (value : Bool) : Bool :=
  let value := value != pending.negated
  match pending.joined with
  | none => value
  | some (before, connective) => connective.apply before value

/-- The first command of a list gives the list its value. -/
theorem Pending.result_first (value : Bool) : Pending.result {} value = value := by
  simp [Pending.result]

/-- A command that is joined to what is before it gives the joined value. -/
theorem Pending.result_joined (before : Bool) (connective : Connective) (value : Bool) :
    Pending.result { joined := some (before, connective) } value =
      connective.apply before value := by
  simp [Pending.result]

/-- Where a reader of a list stands. -/
inductive Position where
  /-- Before a command. -/
  | start
  /-- After some words of a command. -/
  | command (words : List String)
  /-- After a group, where the list so far has a value. -/
  | group (value : Bool)
  /-- After a semicolon, where the list has a value. -/
  | closed (value : Bool)
deriving Repr, DecidableEq

/-- What was read of a list so far. -/
structure Reader where
  /-- What happens to the values of the groups that are open, the innermost first. -/
  outer : List Pending := []
  /-- What happens to the value of the next command. -/
  pending : Pending := {}
  /-- Where the reader stands. -/
  position : Position := .start
deriving Repr, DecidableEq

/-- Whether a command succeeds: two commands are constants, and others are looked up. -/
def run (succeeds : List String → Bool) (words : List String) : Bool :=
  if words = ["true"] then true else if words = ["false"] then false else succeeds words

namespace Reader

/-- The value of the innermost list so far, if the reader stands after a command. -/
def value? (succeeds : List String → Bool) (reader : Reader) : Option Bool :=
  match reader.position with
  | .command words => some (reader.pending.result (run succeeds words))
  | .group value => some value
  | _ => none

/-- Reads a word. -/
def readWord (dialect : Dialect) (reader : Reader) (word : String) : Option Reader :=
  match reader.position with
  | .start =>
    if word = "!" then
      some { reader with pending.negated := !reader.pending.negated }
    else if word = dialect.opening then
      some ⟨reader.pending :: reader.outer, {}, .start⟩
    else if word = dialect.closing then none
    else some { reader with position := .command [word] }
  | .command words => some { reader with position := .command (words ++ [word]) }
  | .group _ => none
  | .closed value =>
    match reader.outer with
    | pending :: outer =>
      if word = dialect.closing then some ⟨outer, {}, .group (pending.result value)⟩ else none
    | [] => none

/-- Reads a word or an operator. In fish a semicolon may come before a list. -/
def read (dialect : Dialect) (succeeds : List String → Bool) (reader : Reader) :
    Token → Option Reader
  | .word word => reader.readWord dialect word
  | .connective connective =>
    (reader.value? succeeds).map fun value =>
      ⟨reader.outer, { joined := some (value, connective) }, .start⟩
  | .semicolon =>
    if dialect = .fish ∧ reader.pending = {} ∧ reader.position = .start then some reader
    else (reader.value? succeeds).map fun value => { reader with position := .closed value }
  | .operator _ => none

end Reader

/-- The value of a command list, if the text is one. -/
def value? (dialect : Dialect) (succeeds : List String → Bool) (text : String) :
    Option Bool := do
  let tokens ← tokens? dialect text
  let reader ← tokens.foldlM (Reader.read dialect succeeds) {}
  if reader.outer = [] then reader.value? succeeds else none

/-! ## Texts put together -/

namespace Lexer

variable {dialect : Dialect} {lexer : Lexer} {tokens : List Token}

/-- The same with tokens before those that were found. -/
def after (tokens : List Token) (lexer : Lexer) : Lexer :=
  { lexer with tokens := tokens ++ lexer.tokens }

/-- Tokens are added to what was found before. -/
theorem emit_after (more : List Token) (mode : Mode) :
    (lexer.after tokens).emit more mode = (lexer.emit more mode).after tokens := by
  have hword : (lexer.after tokens).lastWord = lexer.lastWord := rfl
  simp only [emit, hword]
  simp only [after, List.append_assoc]

/-- Outside of quotes it does not matter what was found before. -/
theorem readPlain_after (c : Char) :
    (lexer.after tokens).readPlain c = (lexer.readPlain c).after tokens := by
  have hpush (mode : Mode) : (lexer.after tokens).push c mode =
      (lexer.push c mode).after tokens := rfl
  have hdepth : (lexer.after tokens).depth = lexer.depth := rfl
  have hword : (lexer.after tokens).word = lexer.word := rfl
  simp only [readPlain, hpush, hdepth, hword, emit_after, apply_ite (after tokens)]
  rfl

/-- It does not matter what was found before. -/
theorem read_after (c : Char) :
    (lexer.after tokens).read dialect c = (lexer.read dialect c).after tokens := by
  have hmode : (lexer.after tokens).mode = lexer.mode := rfl
  unfold read
  rw [hmode]
  cases lexer.mode with
  | plain => exact readPlain_after c
  | operator mark =>
    by_cases hc : c = mark
    · simp only [if_pos hc, emit_after]
    · simp only [if_neg hc, emit_after, readPlain_after]
  | quoted mark => rfl
  | escaped mark => cases mark <;> rfl
  | comment => rfl

/-- A text is read alike whatever was found before. -/
theorem foldl_after (chars : List Char) :
    chars.foldl (read dialect) (lexer.after tokens) =
      (chars.foldl (read dialect) lexer).after tokens := by
  induction chars generalizing lexer with
  | nil => rfl
  | cons c rest ih => rw [List.foldl_cons, List.foldl_cons, read_after, ih]

/-- The tokens of a text come after those that were found before. -/
theorem finish_after : (lexer.after tokens).finish = lexer.finish.map (tokens ++ ·) := by
  obtain ⟨found, word, mode, depth⟩ := lexer
  cases mode with
  | plain =>
    cases depth with
    | zero => exact congrArg some (List.append_assoc ..)
    | succ depth => rfl
  | _ => rfl

/-- A text is complete if no quote or parenthesis is open. -/
theorem finish_eq_some_iff : lexer.finish = some tokens ↔
    lexer.mode = .plain ∧ lexer.depth = 0 ∧ lexer.tokens ++ lexer.lastWord = tokens := by
  unfold finish
  split <;> simp_all

/-- A blank after a complete text leaves its tokens only. -/
theorem read_blank (hlexer : lexer.finish = some tokens) :
    lexer.read dialect ' ' = ({} : Lexer).after tokens := by
  obtain ⟨hmode, hdepth, rfl⟩ := finish_eq_some_iff.mp hlexer
  have hread : lexer.readPlain ' ' =
      if 0 < lexer.depth then lexer.push ' ' .plain else lexer.emit [] .plain := rfl
  have hnext : lexer.read dialect ' ' = lexer.emit [] .plain := by
    simp only [read, hmode, hread, hdepth, Nat.lt_irrefl, if_false]
  rw [hnext, emit, hdepth, after, List.append_nil]

/-- A semicolon after a complete text leaves its tokens and one for itself. -/
theorem read_semicolon (hlexer : lexer.finish = some tokens) :
    lexer.read dialect ';' = ({} : Lexer).after (tokens ++ [.semicolon]) := by
  obtain ⟨hmode, hdepth, rfl⟩ := finish_eq_some_iff.mp hlexer
  have hread : lexer.readPlain ';' =
      if 0 < lexer.depth then lexer.push ';' .plain else lexer.emit [.semicolon] .plain := rfl
  have hnext : lexer.read dialect ';' = lexer.emit [.semicolon] .plain := by
    simp only [read, hmode, hread, hdepth, Nat.lt_irrefl, if_false]
  rw [hnext, emit, hdepth, after, List.append_nil]

end Lexer

section Tokens

variable {dialect : Dialect} {a b : String} {first : List Token}

/-- The tokens of a complete text and of a text after a blank. -/
theorem tokens?_blank (ha : tokens? dialect a = some first) :
    tokens? dialect (a ++ " " ++ b) = (tokens? dialect b).map (first ++ ·) := by
  have hchars : (a ++ " " ++ b).toList = a.toList ++ ' ' :: b.toList := by simp
  unfold tokens?
  rw [hchars, List.foldl_append, List.foldl_cons, Lexer.read_blank ha, Lexer.foldl_after,
    Lexer.finish_after]

/-- The tokens of a complete text and of a text after a semicolon. -/
theorem tokens?_semicolon (ha : tokens? dialect a = some first) :
    tokens? dialect (a ++ ";" ++ b) =
      (tokens? dialect b).map (first ++ [.semicolon] ++ ·) := by
  have hchars : (a ++ ";" ++ b).toList = a.toList ++ ';' :: b.toList := by simp
  unfold tokens?
  rw [hchars, List.foldl_append, List.foldl_cons, Lexer.read_semicolon ha, Lexer.foldl_after,
    Lexer.finish_after]

end Tokens

/-! ## Values of texts put together -/

/-- The text is a single command with the words. -/
structure IsCommand (dialect : Dialect) (text : String) (words : List String) : Prop where
  /-- The text has no operators. -/
  tokens_eq : tokens? dialect text = some (words.map .word)
  /-- The first word is no word of the syntax. -/
  head_notMem : ∃ first ∈ words.head?, first ∉ dialect.reserved

/-- A list that starts with the text has a value when the text was read, if it is known
what happens to the value of the first command. -/
def Reads (dialect : Dialect) (succeeds : List String → Bool) (text : String)
    (pending : Pending) (value : Bool) : Prop :=
  ∃ tokens, tokens? dialect text = some tokens ∧ ∀ outer, ∃ reader,
    tokens.foldlM (Reader.read dialect succeeds) ⟨outer, pending, .start⟩ = some reader ∧
      reader.outer = outer ∧ reader.value? succeeds = some value

section Reads

variable {dialect : Dialect} {succeeds : List String → Bool} {a b : String}
  {pending : Pending} {u v : Bool}

/-- A text that can be read is a command list. -/
theorem Reads.value?_eq (ha : Reads dialect succeeds a {} v) :
    value? dialect succeeds a = some v := by
  obtain ⟨tokens, htokens, hread⟩ := ha
  obtain ⟨reader, hreader, houter, hvalue⟩ := hread []
  have hfold : tokens.foldlM (Reader.read dialect succeeds) {} = some reader := hreader
  simp only [value?, htokens, Option.bind_eq_bind, Option.bind_some, hfold, houter, if_true,
    hvalue]

/-- Words after the first belong to the command. -/
theorem Reader.foldlM_words (outer : List Pending) (first words : List String) :
    (words.map Token.word).foldlM (Reader.read dialect succeeds)
        ⟨outer, pending, .command first⟩ =
      some ⟨outer, pending, .command (first ++ words)⟩ := by
  induction words generalizing first with
  | nil => simp
  | cons word rest ih =>
    have hstep : Reader.read dialect succeeds ⟨outer, pending, .command first⟩ (.word word) =
        some ⟨outer, pending, .command (first ++ [word])⟩ := rfl
    rw [List.map_cons, List.foldlM_cons, hstep, Option.bind_eq_bind, Option.bind_some, ih,
      List.append_assoc, List.singleton_append]

/-- A command is run. -/
theorem IsCommand.reads {words : List String} (ha : IsCommand dialect a words) :
    Reads dialect succeeds a pending (pending.result (run succeeds words)) := by
  obtain ⟨htokens, first, hfirst, hplain⟩ := ha
  obtain ⟨rest, rfl⟩ := List.head?_eq_some_iff.mp hfirst
  simp only [Dialect.reserved, List.mem_cons, List.not_mem_nil, or_false, not_or] at hplain
  obtain ⟨hnegate, hopening, hclosing⟩ := hplain
  refine ⟨_, htokens, fun outer => ⟨⟨outer, pending, .command (first :: rest)⟩, ?_, rfl, rfl⟩⟩
  have hstep : Reader.read dialect succeeds ⟨outer, pending, .start⟩ (.word first) =
      some ⟨outer, pending, .command [first]⟩ := by
    simp only [Reader.read, Reader.readWord, if_neg hnegate, if_neg hopening, if_neg hclosing]
  rw [List.map_cons, List.foldlM_cons, hstep]
  exact Reader.foldlM_words outer [first] rest

/-- An exclamation mark negates what comes next. -/
theorem Reads.negate
    (ha : Reads dialect succeeds a { pending with negated := !pending.negated } v) :
    Reads dialect succeeds ("! " ++ a) pending v := by
  obtain ⟨tokens, htokens, hread⟩ := ha
  have hmark : tokens? dialect "!" = some [.word "!"] := by cases dialect <;> decide +kernel
  have htext : "! " ++ a = "!" ++ " " ++ a := rfl
  refine ⟨[.word "!"] ++ tokens, ?_, fun outer => ?_⟩
  · rw [htext, tokens?_blank hmark, htokens, Option.map_some]
  · obtain ⟨reader, hreader, hresult⟩ := hread outer
    exact ⟨reader, hreader, hresult⟩

/-- What opens a group, as tokens: in fish a semicolon belongs to it. -/
def Dialect.openingTokens (dialect : Dialect) : List Token :=
  match dialect with
  | posix => [.word "\x7b"]
  | fish => [.word "begin", .semicolon]

/-- The tokens of a group. -/
theorem tokens?_wrap {tokens : List Token} (ha : tokens? dialect a = some tokens) :
    tokens? dialect (dialect.grouping.wrap a) =
      some (dialect.openingTokens ++ tokens ++ [.semicolon, .word dialect.closing]) := by
  cases dialect with
  | posix =>
    have hopening : tokens? .posix "\x7b" = some [.word "\x7b"] := by decide +kernel
    have hclosing : tokens? .posix " \x7d" = some [.word "\x7d"] := by decide +kernel
    have htext : Dialect.posix.grouping.wrap a = ("\x7b" ++ " " ++ a) ++ ";" ++ " \x7d" := by
      apply String.toList_injective
      simp [Dialect.grouping, Grouping.wrap, Grouping.posix]
    have hinner : tokens? .posix ("\x7b" ++ " " ++ a) = some ([.word "\x7b"] ++ tokens) := by
      rw [tokens?_blank hopening, ha, Option.map_some]
    rw [htext, tokens?_semicolon hinner, hclosing]
    simp [Dialect.openingTokens, Dialect.closing]
  | fish =>
    have hopening : tokens? .fish "begin" = some [.word "begin"] := by decide +kernel
    have hclosing : tokens? .fish " end" = some [.word "end"] := by decide +kernel
    have hempty : tokens? .fish "" = some [] := by decide +kernel
    have htext : Dialect.fish.grouping.wrap a =
        ("begin" ++ ";" ++ ("" ++ " " ++ a)) ++ ";" ++ " end" := by
      apply String.toList_injective
      simp [Dialect.grouping, Grouping.wrap, Grouping.fish]
    have hinner : tokens? .fish ("begin" ++ ";" ++ ("" ++ " " ++ a)) =
        some ([.word "begin", .semicolon] ++ tokens) := by
      rw [tokens?_semicolon hopening, tokens?_blank hempty, ha]
      simp
    rw [htext, tokens?_semicolon hinner, hclosing]
    simp [Dialect.openingTokens, Dialect.closing]

/-- A group counts as one command. -/
theorem Reads.wrap (ha : Reads dialect succeeds a {} v) :
    Reads dialect succeeds (dialect.grouping.wrap a) pending (pending.result v) := by
  obtain ⟨tokens, htokens, hread⟩ := ha
  refine ⟨_, tokens?_wrap htokens, fun outer => ?_⟩
  obtain ⟨reader, hreader, houter, hvalue⟩ := hread (pending :: outer)
  have hopen : dialect.openingTokens.foldlM (Reader.read dialect succeeds)
      ⟨outer, pending, .start⟩ = some ⟨pending :: outer, {}, .start⟩ := by
    cases dialect <;> rfl
  have hend : Reader.read dialect succeeds reader .semicolon =
      some { reader with position := .closed v } := by
    have hstart : reader.position ≠ .start := by
      intro hstart
      simp [Reader.value?, hstart] at hvalue
    simp [Reader.read, hstart, hvalue]
  have hclose : Reader.read dialect succeeds { reader with position := .closed v }
      (.word dialect.closing) = some ⟨outer, {}, .group (pending.result v)⟩ := by
    simp [Reader.read, Reader.readWord, houter]
  refine ⟨⟨outer, {}, .group (pending.result v)⟩, ?_, rfl, rfl⟩
  simp only [List.foldlM_append, List.foldlM_cons, hopen, hreader, hend, hclose,
    Option.bind_eq_bind, Option.bind_some]
  rfl

/-- A connective joins what comes next to what is before it. -/
theorem Reads.join {connective : Connective} (ha : Reads dialect succeeds a pending u)
    (hb : Reads dialect succeeds b { joined := some (u, connective) } v) :
    Reads dialect succeeds (a ++ " " ++ connective.text ++ " " ++ b) pending v := by
  obtain ⟨first, hfirst, hreada⟩ := ha
  obtain ⟨second, hsecond, hreadb⟩ := hb
  have hmark : tokens? dialect connective.text = some [.connective connective] := by
    cases dialect <;> cases connective <;> decide +kernel
  have htokens : tokens? dialect (a ++ " " ++ connective.text) =
      some (first ++ [.connective connective]) := by
    rw [tokens?_blank hfirst, hmark, Option.map_some]
  refine ⟨first ++ [.connective connective] ++ second, ?_, fun outer => ?_⟩
  · rw [tokens?_blank htokens, hsecond, Option.map_some]
  · obtain ⟨before, hbefore, houter, hvalue⟩ := hreada outer
    obtain ⟨reader, hreader, hresult⟩ := hreadb outer
    have hstep : Reader.read dialect succeeds before (.connective connective) =
        some ⟨outer, { joined := some (u, connective) }, .start⟩ := by
      simp [Reader.read, hvalue, houter]
    refine ⟨reader, ?_, hresult⟩
    rw [List.foldlM_append, List.foldlM_append, hbefore, Option.bind_eq_bind, Option.bind_some,
      List.foldlM_cons, hstep]
    exact hreader

end Reads

end ShellCompletion.CommandList
