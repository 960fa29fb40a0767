import ShellCompletion.Arity
import ShellCompletion.Cli.Definition
import ShellCompletion.Cli.FileTree
import ShellCompletion.Cli.Files
import ShellCompletion.Cli.Request
import ShellCompletion.Cli.Run
import ShellCompletion.Command
import ShellCompletion.CommandLine.Parsed
import ShellCompletion.CommandLine.Table
import ShellCompletion.CommandOption
import ShellCompletion.CommandTree.Basic
import ShellCompletion.Completion.Basic
import ShellCompletion.Completion.Encoding
import ShellCompletion.Condition
import ShellCompletion.Config
import ShellCompletion.ConfigFile
import ShellCompletion.Data.Basic
import ShellCompletion.Data.Shape
import ShellCompletion.Decimal.Notation
import ShellCompletion.Decimal.Shortest
import ShellCompletion.Document.Basic
import ShellCompletion.Document.Export
import ShellCompletion.Document.Import
import ShellCompletion.Error
import ShellCompletion.Guard.Basic
import ShellCompletion.Guard.Render
import ShellCompletion.HelperFunctions
import ShellCompletion.Interface.Basic
import ShellCompletion.Interface.Complete
import ShellCompletion.Interface.Help
import ShellCompletion.Interface.Parse
import ShellCompletion.Interface.Tree
import ShellCompletion.Json.Basic
import ShellCompletion.Json.Printer
import ShellCompletion.Json.Reader
import ShellCompletion.Main
import ShellCompletion.Proofs.Attempts
import ShellCompletion.Proofs.CommandLine.Abbreviations
import ShellCompletion.Proofs.CommandLine.Continuation
import ShellCompletion.Proofs.CommandLine.Names
import ShellCompletion.Proofs.CommandLine.OptionList
import ShellCompletion.Proofs.CommandLine.Parts
import ShellCompletion.Proofs.CommandLine.Places
import ShellCompletion.Proofs.CommandLine.Reading
import ShellCompletion.Proofs.CommandLine.Stacks
import ShellCompletion.Proofs.CommandLine.Table
import ShellCompletion.Proofs.CommandLine.Values
import ShellCompletion.Proofs.CommandOption
import ShellCompletion.Proofs.CommandTree.Counterparts
import ShellCompletion.Proofs.CommandTree.Growth
import ShellCompletion.Proofs.CommandTree.InPlace
import ShellCompletion.Proofs.CommandTree.Nodes
import ShellCompletion.Proofs.CommandTree.Operations
import ShellCompletion.Proofs.CommandTree.Paths
import ShellCompletion.Proofs.CommandTree.Positions
import ShellCompletion.Proofs.CommandTree.Preorder
import ShellCompletion.Proofs.CommandTree.Rejection
import ShellCompletion.Proofs.CommandTree.Renumbering
import ShellCompletion.Proofs.CommandTree.Walk
import ShellCompletion.Proofs.CommandTree.WellFormed
import ShellCompletion.Proofs.Completion.ListForm
import ShellCompletion.Proofs.Condition.Grammar
import ShellCompletion.Proofs.Condition.RoundTrip
import ShellCompletion.Proofs.Document.AnyOrder
import ShellCompletion.Proofs.Document.Arguments
import ShellCompletion.Proofs.Document.Coherent
import ShellCompletion.Proofs.Document.Described
import ShellCompletion.Proofs.Document.Making
import ShellCompletion.Proofs.Document.Mirror
import ShellCompletion.Proofs.Document.Numbers
import ShellCompletion.Proofs.Document.Part
import ShellCompletion.Proofs.Document.Reading
import ShellCompletion.Proofs.Document.ReadingOrder
import ShellCompletion.Proofs.Document.RoundTrip
import ShellCompletion.Proofs.Document.Written
import ShellCompletion.Proofs.Follows
import ShellCompletion.Proofs.Guard.Brackets
import ShellCompletion.Proofs.Guard.CommandList
import ShellCompletion.Proofs.Guard.Eval
import ShellCompletion.Proofs.Guard.TestCommands
import ShellCompletion.Proofs.InStep
import ShellCompletion.Proofs.Json.Data
import ShellCompletion.Proofs.Scope.Conflicts
import ShellCompletion.Proofs.Scope.Contexts
import ShellCompletion.Proofs.Scope.Declarations
import ShellCompletion.Proofs.Scope.Guards
import ShellCompletion.Proofs.Scope.HandOver
import ShellCompletion.Proofs.Scope.Meaning
import ShellCompletion.Proofs.Scope.OptionList
import ShellCompletion.Proofs.Scope.References
import ShellCompletion.Proofs.Scope.Switches
import ShellCompletion.Proofs.Scope.Visibility
import ShellCompletion.Proofs.Script.Bash
import ShellCompletion.Proofs.Script.Bash.Conditions
import ShellCompletion.Proofs.Script.Bash.ReadingLoop
import ShellCompletion.Proofs.Script.Bash.Recognition
import ShellCompletion.Proofs.Script.Bash.ScopedOptions
import ShellCompletion.Proofs.Script.Compilation
import ShellCompletion.Proofs.Script.Definitions
import ShellCompletion.Proofs.Script.Emit
import ShellCompletion.Proofs.Script.Fish
import ShellCompletion.Proofs.Script.Fish.Conditions
import ShellCompletion.Proofs.Script.Functions
import ShellCompletion.Proofs.Script.Indentation
import ShellCompletion.Proofs.Script.Reached
import ShellCompletion.Proofs.Script.Renumbering
import ShellCompletion.Proofs.Script.Zsh
import ShellCompletion.Proofs.Script.Zsh.Fields
import ShellCompletion.Proofs.Script.Zsh.ListedOptions
import ShellCompletion.Proofs.Script.Zsh.OptionSpecs
import ShellCompletion.Proofs.Specification
import ShellCompletion.Proofs.Spellings
import ShellCompletion.Proofs.Spellings.Groups
import ShellCompletion.Proofs.Spellings.Tokens
import ShellCompletion.Proofs.Text.Blank
import ShellCompletion.Proofs.Text.Fresh
import ShellCompletion.Proofs.Text.Lines
import ShellCompletion.Proofs.Text.Quoting
import ShellCompletion.Proofs.Text.Words
import ShellCompletion.Proofs.Validation
import ShellCompletion.Scope.Basic
import ShellCompletion.Scope.Guards
import ShellCompletion.Script.Bash.Action
import ShellCompletion.Script.Bash.Function
import ShellCompletion.Script.Bash.Helpers
import ShellCompletion.Script.Bash.Query
import ShellCompletion.Script.Bash.ReadingLoop
import ShellCompletion.Script.Bash.ScopedOption
import ShellCompletion.Script.Bash.Script
import ShellCompletion.Script.Basic
import ShellCompletion.Script.Emit
import ShellCompletion.Script.Fish.Action
import ShellCompletion.Script.Fish.Command
import ShellCompletion.Script.Fish.Helpers
import ShellCompletion.Script.Fish.Script
import ShellCompletion.Script.Outline
import ShellCompletion.Script.Zsh.Action
import ShellCompletion.Script.Zsh.Function
import ShellCompletion.Script.Zsh.Helpers
import ShellCompletion.Script.Zsh.Script
import ShellCompletion.Shell
import ShellCompletion.Specification
import ShellCompletion.Spellings
import ShellCompletion.Text.Affix
import ShellCompletion.Text.Blank
import ShellCompletion.Text.Control
import ShellCompletion.Text.LetterCase
import ShellCompletion.Text.Lines
import ShellCompletion.Text.Printable
import ShellCompletion.Text.Quoted
import ShellCompletion.Text.ShellWord
import ShellCompletion.Tristate
import ShellCompletion.Validation
import ShellCompletion.Warning
import ShellCompletion.Yaml.Cursor
import ShellCompletion.Yaml.Node
import ShellCompletion.Yaml.Parser
import ShellCompletion.Yaml.Printer
import ShellCompletion.Yaml.Property
import ShellCompletion.Yaml.Resolve
import ShellCompletion.Yaml.Scalar
import ShellCompletion.Yaml.Scanner
import ShellCompletion.Yaml.Schema
import ShellCompletion.Yaml.Token
import ShellCompletion.Proofs.CommandLine.NormalForm
import ShellCompletion.Proofs.Script.Names
import ShellCompletion.Proofs.HelperFunctions.Calls
import ShellCompletion.Proofs.Interface.Conversion
import ShellCompletion.Proofs.Interface.Exclusion
