import ShellCompletion.Yaml.Node
import ShellCompletion.Yaml.Scanner

/-!
# Parsing YAML

The documents of a YAML text. A fault in one document leaves those before it as they
are. Every function here is given fuel that exceeds the number of tokens it may read.
-/

namespace ShellCompletion.Yaml

/-- Where a node stands, which decides how it may be written. -/
inductive Place where
  /-- In an indented collection or at the top of a document. -/
  | block
  /-- The key or value of an indented map, where the items of a list need not be
  indented. -/
  | blockPair
  /-- Between brackets. -/
  | flow
deriving DecidableEq

/-- What tag handles stand for. -/
abbrev TagHandles := List (String × String)

/-- The complete tag of a handle and a suffix. -/
def TagHandles.tag? (handles : TagHandles) (handle suffix : String) : Option String :=
  if handle.isEmpty then some suffix
  else (handles.lookup handle).map (· ++ suffix)

/-- Reads the anchor and the tag of a node, in either order. -/
def readProperty (handles : TagHandles) :
    List Token → Option (Property String × List Token)
  | .anchor name :: .tag handle suffix :: rest =>
    (handles.tag? handle suffix).map fun tag => (⟨some name, some tag⟩, rest)
  | .tag handle suffix :: .anchor name :: rest =>
    (handles.tag? handle suffix).map fun tag => (⟨some name, some tag⟩, rest)
  | .anchor name :: rest => some (⟨some name, none⟩, rest)
  | .tag handle suffix :: rest =>
    (handles.tag? handle suffix).map fun tag => (⟨none, some tag⟩, rest)
  | rest => some ({}, rest)

/-- Whether an item of an indented list ends before it has begun. -/
def endsItem : Token → Bool
  | .blockEntry | .blockEnd => true
  | _ => false

/-- Whether a key or a value of an indented map ends before it has begun. -/
def endsPair : Token → Bool
  | .key | .value | .blockEnd => true
  | _ => false

/-- Whether an item of a list that is not indented ends before it has begun. -/
def endsLooseItem (token : Token) : Bool :=
  token == .blockEntry || endsPair token

/-- Whether a key between brackets ends before it has begun. -/
def endsFlowKey (closing token : Token) : Bool :=
  token == .value || token == .flowEntry || token == closing

/-- Whether a value between brackets ends before it has begun. -/
def endsFlowValue (closing token : Token) : Bool :=
  token == .flowEntry || token == closing

mutual

/-- Reads a node. -/
def readNode (handles : TagHandles) (fuel : Nat) (place : Place) (tokens : List Token) :
    Option (Node String × List Token) :=
  match fuel with
  | 0 => none
  | fuel + 1 =>
    match tokens with
    | .alias name :: rest => some (.alias name, rest)
    | tokens =>
      match readProperty handles tokens with
      | none => none
      | some (property, tokens) =>
        match place, tokens with
        | .blockPair, .blockEntry :: rest =>
          (readLooseItems handles fuel (.blockEntry :: rest)).map fun (items, rest) =>
            (.sequence property items, rest)
        | _, .scalar text style :: rest =>
          some (.scalar property style text, rest)
        | _, .flowSequenceStart :: rest =>
          (readFlowItems handles fuel true rest).map fun (items, rest) =>
            (.sequence property items, rest)
        | _, .flowMappingStart :: rest =>
          (readFlowPairs handles fuel true rest).map fun (entries, rest) =>
            (.mapping property entries, rest)
        | place, tokens =>
          match decide (place = .flow), tokens with
          | false, .blockSequenceStart :: rest =>
            (readItems handles fuel rest).map fun (items, rest) =>
              (.sequence property items, rest)
          | false, .blockMappingStart :: rest =>
            (readPairs handles fuel rest).map fun (entries, rest) =>
              (.mapping property entries, rest)
          | _, tokens =>
            if property.anchor.isSome || property.tag.isSome then
              some (.empty property, tokens)
            else none

/-- Reads a node, or an empty one where the next token says that there is none. -/
def readOptional (handles : TagHandles) (fuel : Nat) (place : Place)
    (ends : Token → Bool) (tokens : List Token) : Option (Node String × List Token) :=
  match fuel with
  | 0 => none
  | fuel + 1 =>
    match tokens with
    | [] => none
    | token :: rest =>
      if ends token then some (.empty {}, token :: rest)
      else readNode handles fuel place (token :: rest)

/-- Reads the items of an indented list up to its end. -/
def readItems (handles : TagHandles) (fuel : Nat) (tokens : List Token) :
    Option (List (Node String) × List Token) :=
  match fuel with
  | 0 => none
  | fuel + 1 =>
    match tokens with
    | .blockEntry :: rest =>
      match readOptional handles fuel .block endsItem rest with
      | none => none
      | some (item, rest) =>
        (readItems handles fuel rest).map fun (items, rest) => (item :: items, rest)
    | .blockEnd :: rest => some ([], rest)
    | _ => none

/-- Reads the items of a list that is not indented more than the map it is in. -/
def readLooseItems (handles : TagHandles) (fuel : Nat) (tokens : List Token) :
    Option (List (Node String) × List Token) :=
  match fuel with
  | 0 => none
  | fuel + 1 =>
    match tokens with
    | .blockEntry :: rest =>
      match readOptional handles fuel .block endsLooseItem rest with
      | none => none
      | some (item, rest) =>
        (readLooseItems handles fuel rest).map fun (items, rest) => (item :: items, rest)
    | tokens => some ([], tokens)

/-- Reads the entries of an indented map up to its end. -/
def readPairs (handles : TagHandles) (fuel : Nat) (tokens : List Token) :
    Option (List (Node String × Node String) × List Token) :=
  match fuel with
  | 0 => none
  | fuel + 1 =>
    match tokens with
    | .key :: rest =>
      match readOptional handles fuel .blockPair endsPair rest with
      | none => none
      | some (key, rest) =>
        match readValue handles fuel .blockPair endsPair rest with
        | none => none
        | some (value, rest) =>
          (readPairs handles fuel rest).map fun (entries, rest) => ((key, value) :: entries, rest)
    | .blockEnd :: rest => some ([], rest)
    | _ => none

/-- Reads the value of an entry, which may be left out. -/
def readValue (handles : TagHandles) (fuel : Nat) (place : Place)
    (ends : Token → Bool) (tokens : List Token) : Option (Node String × List Token) :=
  match fuel with
  | 0 => none
  | fuel + 1 =>
    match tokens with
    | .value :: rest => readOptional handles fuel place ends rest
    | tokens => some (.empty {}, tokens)

/-- Reads the items of a list between brackets up to its end. An item may be a pair,
which is a map of one entry. The first item has no comma before it. -/
def readFlowItems (handles : TagHandles) (fuel : Nat) (first : Bool) (tokens : List Token) :
    Option (List (Node String) × List Token) :=
  match fuel with
  | 0 => none
  | fuel + 1 =>
    match first, tokens with
    | _, .flowSequenceEnd :: rest => some ([], rest)
    | false, .flowEntry :: rest => readFlowItem handles fuel rest
    | true, tokens => readFlowItem handles fuel tokens
    | false, _ => none

/-- Reads an item of a list between brackets, if there is one, and those after it. -/
def readFlowItem (handles : TagHandles) (fuel : Nat) (tokens : List Token) :
    Option (List (Node String) × List Token) :=
  match fuel with
  | 0 => none
  | fuel + 1 =>
    match tokens with
    | .flowSequenceEnd :: rest => some ([], rest)
    | .key :: rest =>
      match readFlowPair handles fuel rest with
      | none => none
      | some (entry, rest) =>
        (readFlowItems handles fuel false rest).map fun (items, rest) =>
          (.mapping {} [entry] :: items, rest)
    | tokens =>
      match readNode handles fuel .flow tokens with
      | none => none
      | some (item, rest) =>
        (readFlowItems handles fuel false rest).map fun (items, rest) => (item :: items, rest)

/-- Reads a pair that is an item of a list. A token that shows that the pair has no key
is used up, so that a value after it is not read. -/
def readFlowPair (handles : TagHandles) (fuel : Nat) (tokens : List Token) :
    Option ((Node String × Node String) × List Token) :=
  match fuel with
  | 0 => none
  | fuel + 1 =>
    match tokens with
    | [] => none
    | token :: rest =>
      let key :=
        if endsFlowKey .flowSequenceEnd token then some (.empty {}, rest)
        else readNode handles fuel .flow (token :: rest)
      match key with
      | none => none
      | some (key, rest) =>
        (readValue handles fuel .flow (endsFlowValue .flowSequenceEnd) rest).map
          fun (value, rest) => ((key, value), rest)

/-- Reads the entries of a map between braces up to its end. The first entry has no
comma before it. -/
def readFlowPairs (handles : TagHandles) (fuel : Nat) (first : Bool) (tokens : List Token) :
    Option (List (Node String × Node String) × List Token) :=
  match fuel with
  | 0 => none
  | fuel + 1 =>
    match first, tokens with
    | _, .flowMappingEnd :: rest => some ([], rest)
    | false, .flowEntry :: rest => readFlowEntry handles fuel rest
    | true, tokens => readFlowEntry handles fuel tokens
    | false, _ => none

/-- Reads an entry of a map between braces, if there is one, and those after it. -/
def readFlowEntry (handles : TagHandles) (fuel : Nat) (tokens : List Token) :
    Option (List (Node String × Node String) × List Token) :=
  match fuel with
  | 0 => none
  | fuel + 1 =>
    match tokens with
    | .flowMappingEnd :: rest => some ([], rest)
    | .key :: rest =>
      match readOptional handles fuel .flow (endsFlowKey .flowMappingEnd) rest with
      | none => none
      | some (key, rest) =>
        match readValue handles fuel .flow (endsFlowValue .flowMappingEnd) rest with
        | none => none
        | some (value, rest) =>
          (readFlowPairs handles fuel false rest).map fun (entries, rest) =>
            ((key, value) :: entries, rest)
    | tokens =>
      match readNode handles fuel .flow tokens with
      | none => none
      | some (key, rest) =>
        (readFlowPairs handles fuel false rest).map fun (entries, rest) =>
          ((key, .empty {}) :: entries, rest)

end

/-- The handles that every document knows. -/
def standardHandles : TagHandles :=
  [("!", "!"), ("!!", "tag:yaml.org,2002:")]

/-- Reads the directives of a document: at most one version, and handles each given
once. -/
def readDirectives : List Token → Bool → TagHandles → Option (TagHandles × List Token)
  | .version major minor :: rest, versioned, handles =>
    if versioned || major != 1 || (minor != 1 && minor != 2) then none
    else readDirectives rest true handles
  | .tagHandle handle meaning :: rest, versioned, handles =>
    if (handles.lookup handle).isSome then none
    else readDirectives rest versioned (handles ++ [(handle, meaning)])
  | rest, _, handles => some (handles ++ standardHandles, rest)

/-- Whether a document has no content when a token follows its start. -/
def endsDocument : Token → Bool
  | .version .. | .tagHandle .. | .documentStart | .documentEnd | .streamEnd => true
  | _ => false

/-- Reads a document. Only the first one may lack the mark of its start. -/
def readDocument (first : Bool) (tokens : List Token) : Option (Node String × List Token) := do
  let fuel := 4 * tokens.length + 4
  let marked := match tokens with
    | .version .. :: _ | .tagHandle .. :: _ | .documentStart :: _ => true
    | _ => false
  let (root, rest) ←
    if first && !marked then readNode standardHandles fuel .block tokens
    else do
      let (handles, rest) ← readDirectives tokens false []
      match rest with
      | .documentStart :: rest => readOptional handles fuel .block endsDocument rest
      | _ => none
  match rest with
  | [] => none
  | .documentEnd :: rest => some (root, rest)
  | rest => some (root, rest)

/-- Reads the documents of a text; the last of them is absent if a fault comes up. -/
def readDocuments : Nat → Bool → List Token → List (Option (Node String))
  | 0, _, _ => [none]
  | fuel + 1, first, tokens =>
    match if first then tokens else tokens.dropWhile (· == .documentEnd) with
    | .streamEnd :: _ => []
    | tokens =>
      match readDocument first tokens with
      | none => [none]
      | some (root, rest) => some root :: readDocuments fuel false rest

/-- The documents of a text; the last of them is absent if a fault comes up. -/
def documentsOf (text : String) : List (Option (Node String)) :=
  let tokens := tokensOf text
  readDocuments (tokens.length + 1) true tokens

end ShellCompletion.Yaml
