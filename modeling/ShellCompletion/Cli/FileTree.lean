import ShellCompletion.Cli.Files
import ShellCompletion.Text.Blank

/-!
# File trees in memory

The files of a directory and what paths lead to in it. Reading and writing fail as they
do on the file system of the machine. Around the directory nothing is known to exist but
the directories that it is in.
-/

namespace ShellCompletion.Cli

/-- What stands at a place of a file tree. -/
inductive FileEntry where
  /-- A directory. -/
  | directory
  /-- A file with its bytes. -/
  | file (content : List UInt8)
deriving Repr, DecidableEq

/-- Files and directories by the names that lead to them from a directory, the top. Two
dots at the start lead to what is around it, and a slash to where full paths start. -/
structure FileTree where
  /-- The places with what stands there. -/
  entries : List (List String × FileEntry) := []
deriving Repr, DecidableEq

namespace FileTree

/-- Whether a place is the top, is around it or is where full paths start. -/
def isGiven (place : List String) : Bool :=
  place == ["/"] || place.all (· == "..")

/-- What stands at a place. -/
def entry? (tree : FileTree) (place : List String) : Option FileEntry :=
  if isGiven place then some .directory else tree.entries.lookup place

/-- The files below the top by their paths. -/
def files (tree : FileTree) : List (String × List UInt8) :=
  tree.entries.filterMap fun (place, entry) =>
    match entry with
    | .file content =>
      if place.head?.any (fun name => name == "/" || name == "..") then none
      else some ("/".intercalate place, content)
    | .directory => none

/-- The tree with something at a place. -/
def put (tree : FileTree) (place : List String) (entry : FileEntry) : FileTree :=
  if (tree.entries.lookup place).isSome then
    ⟨tree.entries.map fun (other, old) => (other, if other == place then entry else old)⟩
  else ⟨tree.entries ++ [(place, entry)]⟩

/-- The names in a path. -/
def names (path : String) : List String :=
  (Text.split (· == '/') path).filter (· != "")

/-- The place at which a path starts. -/
def start (path : String) : List String :=
  if path.startsWith "/" then ["/"] else []

/-- The directory around a directory at a place. -/
def above (place : List String) : List String :=
  if place == ["/"] then place
  else if isGiven place then place ++ [".."]
  else place.dropLast

/-- Whether a name stands for the directory it is in or for the one around it. -/
def isDots (name : String) : Bool :=
  name == "." || name == ".."

/-- The greatest length of a name in bytes. -/
def nameLimit : Nat := 255

/-- The greatest length of a path in bytes. -/
def pathLimit : Nat := 4095

/-- Refuses a path that cannot be asked for. -/
def checkPath (path : String) : Except FileFault Unit :=
  if path.toList.contains '\x00' then .error .zeroByte
  else if path.isEmpty then .error .missing
  else if pathLimit < path.utf8ByteSize then .error .nameTooLong
  else .ok ()

/-- The place that some names lead to from another place. All but the last name must
lead to directories. -/
def locate (tree : FileTree) (place : List String) : List String → Except FileFault (List String)
  | [] => .ok place
  | name :: rest =>
    match tree.entry? place with
    | none => .error .missing
    | some (.file _) => .error .notDirectory
    | some .directory =>
      if nameLimit < name.utf8ByteSize then .error .nameTooLong
      else if name == "." then tree.locate place rest
      else if name == ".." then tree.locate (above place) rest
      else tree.locate (place ++ [name]) rest

/-- The place that a path leads to. A slash at the end asks for a directory. -/
def resolve (tree : FileTree) (path : String) : Except FileFault (List String) := do
  checkPath path
  tree.locate (start path) (names path ++ if path.endsWith "/" then ["."] else [])

/-- The text of the file at a path. -/
def read (tree : FileTree) (path : String) : Except FileFault String := do
  match tree.entry? (← tree.resolve path) with
  | none => throw .missing
  | some .directory => throw .isDirectory
  | some (.file content) =>
    match String.fromUTF8? ⟨content.toArray⟩ with
    | some text => return text
    | none => throw .notText

/-- Makes the directory that some names lead to, and those it is in. -/
def makeDirectories (tree : FileTree) (place : List String) :
    List String → Except FileFault FileTree
  | [] => .ok tree
  | name :: rest => do
    let next ← tree.locate place [name]
    match tree.entry? next with
    | some .directory => tree.makeDirectories next rest
    | some (.file _) => throw (if rest.isEmpty then .exists else .notDirectory)
    | none => (tree.put next .directory).makeDirectories next rest

/-- Makes the directories that the last name of a path is in. -/
def makeParents (tree : FileTree) (path : String) : Except FileFault FileTree := do
  let parents := ((names path).filter (· != ".")).dropLast
  if parents.isEmpty then return tree
  checkPath ("/".intercalate parents)
  tree.makeDirectories (start path) parents

/-- Writes a text to the file at a path, in directories that are made if need be. A name
before a slash at the end is not looked up. -/
def write (tree : FileTree) (path text : String) : Except FileFault FileTree := do
  let tree ← tree.makeParents path
  checkPath path
  let parts := names path
  let last := parts.getLast?.getD "."
  let place ← tree.locate (start path) (parts.dropLast ++ ["."])
  if path.endsWith "/" && !isDots last then throw .isDirectory
  let place ← tree.locate place [last]
  match tree.entry? place with
  | some .directory => throw .isDirectory
  | _ => return tree.put place (.file text.toUTF8.toList)

end FileTree

/-- A file tree with what has been written to the output. -/
structure Session where
  /-- The files. -/
  files : FileTree
  /-- The output so far. -/
  output : String := ""

/-- The operations on the files and the output of a session. -/
def Session.operations : Files (StateM Session) where
  read path := return (← get).files.read path
  write path text := modifyGet fun session =>
    match session.files.write path text with
    | .ok files => (.ok (), { session with files := files })
    | .error fault => (.error fault, session)
  print text := modify fun session => { session with output := session.output ++ text }

end ShellCompletion.Cli
