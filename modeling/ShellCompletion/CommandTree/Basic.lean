import ShellCompletion.Command

/-!
# Command trees

A program and its subcommands, numbered in the order in which they were added. A
subcommand always comes after the command that holds it, so numbers grow along every
path from the program down.
-/

namespace ShellCompletion

/-- One command in its place. -/
structure Node where
  /-- What the command declares. -/
  command : Command
  /-- The number of the enclosing command; the program has none. -/
  parent : Option Nat := none
  /-- The numbers of the subcommands in order. -/
  children : List Nat := []
deriving DecidableEq, Inhabited

/-- A program and its subcommands. -/
structure CommandTree where
  /-- The commands by number; the program has number zero. -/
  nodes : Array Node
deriving DecidableEq, Inhabited

namespace CommandTree

/-- The tree of a program without subcommands. -/
def new (program : String) : CommandTree :=
  ⟨#[{ command := { name := program } }]⟩

/-- How many commands there are. -/
def size (tree : CommandTree) : Nat :=
  tree.nodes.size

/-- The numbers of the commands. -/
def ids (tree : CommandTree) : List Nat :=
  List.range tree.size

/-- The command with a number, in its place. -/
def node? (tree : CommandTree) (id : Nat) : Option Node :=
  tree.nodes[id]?

/-- The command with a number that the tree has given out, in its place. -/
def node (tree : CommandTree) (id : Nat) : Node :=
  (tree.node? id).getD default

/-- What the command with a number declares. -/
def command (tree : CommandTree) (id : Nat) : Command :=
  (tree.node id).command

/-- The subcommands of a command. -/
def children (tree : CommandTree) (id : Nat) : List Nat :=
  (tree.node id).children

/-- The name of the program. -/
def programName (tree : CommandTree) : String :=
  (tree.command 0).name

/-- The tree with another declaration of a command. -/
def modify (tree : CommandTree) (id : Nat) (change : Command → Command) : CommandTree :=
  ⟨tree.nodes.modify id fun node => { node with command := change node.command }⟩

/-- The tree with another name of the program. -/
def rename (tree : CommandTree) (name : String) : CommandTree :=
  tree.modify 0 fun command => { command with name := name }

/-- The enclosing commands, nearest first. -/
def ancestors (tree : CommandTree) (id : Nat) : List Nat :=
  match (tree.node id).parent with
  | none => []
  | some parent => if parent < id then parent :: tree.ancestors parent else []
termination_by id

/-- A command and the enclosing ones, nearest first. -/
def lineage (tree : CommandTree) (id : Nat) : List Nat :=
  id :: tree.ancestors id

/-- The names from the program down to a command. -/
def path (tree : CommandTree) (id : Nat) : List String :=
  (tree.lineage id).reverse.map fun ancestor => (tree.command ancestor).name

/-- The names from the program down to a command, with blanks between them. -/
def commandPath (tree : CommandTree) (id : Nat) : String :=
  " ".intercalate (tree.path id)

/-- A command and everything below it down to a depth, every command before its
subcommands and these in order. -/
def walkFrom (tree : CommandTree) : Nat → Nat → List Nat
  | 0, id => [id]
  | depth + 1, id => id :: (tree.children id).flatMap (tree.walkFrom depth)

/-- All commands, every command before its subcommands and these in order. -/
def walk (tree : CommandTree) : List Nat :=
  tree.walkFrom tree.size 0

/-- The first subcommand that answers to a name. -/
def findSubcommand? (tree : CommandTree) (id : Nat) (name : String) : Option Nat :=
  (tree.children id).find? fun child => (tree.command child).names.contains name

/-- The command that a path of names leads to; names of subcommands may be any of
theirs. -/
def findByPath? (tree : CommandTree) : List String → Option Nat
  | [] => none
  | program :: names =>
    if program == tree.programName then names.foldlM tree.findSubcommand? 0 else none

/-- Whether a command has nothing to complete of its own. -/
def isBare (tree : CommandTree) (id : Nat) : Bool :=
  let command := tree.command id
  command.options.isEmpty && command.positionals.isEmpty && (tree.children id).isEmpty

/-- The tree with one more option of a command; no two options of a command answer to
the same string. -/
def addOption (tree : CommandTree) (id : Nat) (option : CommandOption) :
    Except Error CommandTree :=
  match option.strings.find? fun string => ((tree.command id).findOption? string).isSome with
  | some string => .error (.invalidOption (.declaredTwice string (tree.commandPath id)))
  | none => .ok (tree.modify id fun command =>
      { command with options := command.options ++ [option] })

/-- The tree with more options of a command, which form a group. The options before
one that cannot be added stay. -/
def addGroup (tree : CommandTree) (id : Nat) (group : String) :
    List CommandOption → CommandTree × Except Error Unit
  | [] => (tree, .ok ())
  | option :: rest =>
    match tree.addOption id (option.inGroup group) with
    | .error error => (tree, .error error)
    | .ok tree => tree.addGroup id group rest

/-- The tree with one more positional argument of a command. -/
def addPositional (tree : CommandTree) (id : Nat) (positional : Positional) : CommandTree :=
  tree.modify id fun command =>
    { command with positionals := command.positionals ++ [positional] }

/-- The tree with a slot for subcommands of a command that has none yet. -/
def addSlot (tree : CommandTree) (id : Nat) (slot : SubcommandSlot) :
    Except Error CommandTree :=
  if (tree.command id).slot.isSome then
    .error (.duplicateSubcommands (tree.commandPath id))
  else .ok (tree.modify id fun command => { command with slot := some slot })

/-- The tree with a new last subcommand, whose number is the old size. The enclosing
command gets the default slot if it has none. -/
def attach (tree : CommandTree) (parent : Nat) (command : Command) : CommandTree :=
  ⟨(tree.nodes.modify parent fun node => {
      node with
      command := { node.command with slot := some (node.command.slot.getD {}) }
      children := node.children ++ [tree.size] }).push
    { command := command, parent := some parent }⟩

/-- The tree with one more subcommand, and the number of that. No two subcommands of a
command may answer to its name. -/
def addSubcommand (tree : CommandTree) (parent : Nat) (name help : String) :
    Except Error (CommandTree × Nat) :=
  if (tree.findSubcommand? parent name).isSome then
    .error (.validation (.declaredTwice name (tree.commandPath parent)))
  else .ok (tree.attach parent { name := name, help := help }, tree.size)

/-- How many positions of a command line the enclosing commands take up. -/
def slotsBefore (tree : CommandTree) (id : Nat) : Nat :=
  (tree.ancestors id).foldr (fun ancestor count => (tree.command ancestor).slotCount + count) 0

/-- The number of the positional argument at a place, counted from one at the program. -/
def positionalNumber (tree : CommandTree) (id place : Nat) : Nat :=
  tree.slotsBefore id + place + 1

/-- The number of the slot for subcommands. -/
def subcommandNumber (tree : CommandTree) (id : Nat) : Nat :=
  tree.positionalNumber id (tree.command id).positionals.length

/-- Whether two commands with everything below them, down to a depth, are the same
apart from their numbers. -/
def sameFrom (tree other : CommandTree) : Nat → Nat → Nat → Bool
  | 0, _, _ => true
  | depth + 1, a, b =>
    tree.command a == other.command b &&
      (tree.children a).length == (other.children b).length &&
      ((tree.children a).zip (other.children b)).all fun (c, d) => tree.sameFrom other depth c d

/-- Whether two trees are the same apart from the numbers of their commands. -/
def same (tree other : CommandTree) : Bool :=
  tree.sameFrom other tree.size 0 0

end CommandTree
end ShellCompletion
