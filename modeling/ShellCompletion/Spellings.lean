import ShellCompletion.Text.Affix

/-!
# Accepted spellings

Tokens may be abbreviated as long as the beginning that is typed tells them apart
from all others. The tokens of one thing, such as a subcommand and its other names,
form a group and need not be told apart from each other.
-/

namespace ShellCompletion

/-- The shortest accepted beginning of a long or old-style option. -/
def minOptionBeginning : Nat := 3

/-- The shortest accepted beginning of a subcommand name. -/
def minCommandBeginning : Nat := 1

/-- Groups of tokens with the words that are accepted for each group. -/
structure Spellings where
  /-- The tokens of every group, each token in the first group that has it. -/
  groups : List (List String)
  /-- The accepted words of every group. -/
  accepted : List (List String)
deriving Repr, DecidableEq, Inhabited

namespace Spellings

/-- The tokens that are not among those seen before, each once. -/
def newTokens (seen tokens : List String) : List String :=
  tokens.foldl (fun kept token =>
    if seen.contains token || kept.contains token then kept else kept ++ [token]) []

/-- The groups with every token only where it appears first. -/
def distinctGroups (seen : List String) : List (List String) → List (List String)
  | [] => []
  | tokens :: rest =>
    let kept := newTokens seen tokens
    kept :: distinctGroups (seen ++ kept) rest

/-- The beginnings of a token from one character up to the whole token; the empty
token is its own only beginning. -/
def beginnings (token : String) : List String :=
  if token.isEmpty then [token]
  else (List.range token.length).map fun count =>
    String.ofList (token.toList.take (count + 1))

/-- Whether a beginning of a token is accepted: the token itself always is, and a
shorter one if it is long enough and begins no token of another group. -/
def accepts (others : List String) (minLength : Nat) (token beginning : String) : Bool :=
  beginning == token ||
    (minLength ≤ beginning.length && !others.any (Text.beginsWith · beginning))

/-- The accepted words of a group, shorter words first, words of one length in the
order of their tokens. -/
def acceptedWords (others : List String) (minLength : Nat) (tokens : List String) :
    List String :=
  let words := tokens.flatMap fun token =>
    (beginnings token).filter (accepts others minLength token)
  words.eraseDups.mergeSort fun a b => a.length ≤ b.length

/-- The tokens of all groups but one. -/
def otherTokens (groups : List (List String)) (place : Nat) : List String :=
  (groups.eraseIdx place).flatten

/-- The spellings of groups of tokens; only the tokens themselves unless abbreviating
is on. -/
def new (groups : List (List String)) (minLength : Nat) (enabled : Bool) : Spellings :=
  let groups := distinctGroups [] groups
  { groups := groups
    accepted :=
      if enabled then
        groups.zipIdx.map fun (tokens, place) =>
          acceptedWords (otherTokens groups place) minLength tokens
      else groups }

/-- The spellings of tokens that each form a group. -/
def ofTokens (tokens : List String) (minLength : Nat) (enabled : Bool) : Spellings :=
  new (tokens.map fun token => [token]) minLength enabled

/-- The accepted words of the group at a place. -/
def wordsOf (spellings : Spellings) (place : Nat) : List String :=
  spellings.accepted[place]?.getD []

/-- The place of the group that accepts a word. -/
def groupOf? (spellings : Spellings) (word : String) : Option Nat :=
  spellings.accepted.findIdx? (·.contains word)

/-- The token that a word stands for. -/
def expand? (spellings : Spellings) (word : String) : Option String := do
  let place ← spellings.groupOf? word
  let tokens := spellings.groups[place]?.getD []
  if tokens.contains word then some word
  else tokens.find? (Text.beginsWith · word)

end Spellings
end ShellCompletion
