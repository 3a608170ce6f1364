import SchemaCodecs.Bundle.Course
import SchemaCodecs.Bundle.Gather
import SchemaCodecs.Bundle.Install
import SchemaCodecs.Bundle.Load
import SchemaCodecs.Bundle.Loader
import SchemaCodecs.Bundle.Relocate
import SchemaCodecs.Bundle.Shelf
import SchemaCodecs.Bundle.Site
import SchemaCodecs.Bundle.Target
import SchemaCodecs.Codec.Key
import SchemaCodecs.Codec.Module
import SchemaCodecs.Codec.Print
import SchemaCodecs.CommandLine.Arguments
import SchemaCodecs.CommandLine.Run
import SchemaCodecs.Compile
import SchemaCodecs.Config
import SchemaCodecs.Count
import SchemaCodecs.Declaration.Build
import SchemaCodecs.Declaration.TypeExpr
import SchemaCodecs.Diagnostic
import SchemaCodecs.Distinct
import SchemaCodecs.Fault
import SchemaCodecs.FileTree.Basic
import SchemaCodecs.FileTree.Disk
import SchemaCodecs.FileTree.Path
import SchemaCodecs.Json.Reader
import SchemaCodecs.Log
import SchemaCodecs.Main
import SchemaCodecs.Number.Binary64
import SchemaCodecs.Number.IntegerText
import SchemaCodecs.Number.Shortest
import SchemaCodecs.Order.Components
import SchemaCodecs.Order.Graph
import SchemaCodecs.Order.Sort
import SchemaCodecs.Reference.Pointer
import SchemaCodecs.Reference.Syntax
import SchemaCodecs.Save
import SchemaCodecs.Schema.Classify
import SchemaCodecs.Schema.Node
import SchemaCodecs.Text.Base64
import SchemaCodecs.Text.Blank
import SchemaCodecs.Text.Casing
import SchemaCodecs.Text.Lowercase
import SchemaCodecs.Text.Printable
import SchemaCodecs.Text.Quoted
import SchemaCodecs.Text.Segment
import SchemaCodecs.Text.Utf8
import SchemaCodecs.Traced
import SchemaCodecs.Value.Basic
import SchemaCodecs.Value.Calendar
import SchemaCodecs.Value.Display
import SchemaCodecs.Value.Recurrence
import SchemaCodecs.Value.Scalar
import SchemaCodecs.Value.SetOrder
import SchemaCodecs.Yaml.Build
import SchemaCodecs.Yaml.Cursor
import SchemaCodecs.Yaml.Document
import SchemaCodecs.Yaml.Fault
import SchemaCodecs.Yaml.Lexer
import SchemaCodecs.Yaml.Merge
import SchemaCodecs.Yaml.Node
import SchemaCodecs.Yaml.Scalar
import SchemaCodecs.Yaml.ScalarValue
import SchemaCodecs.Yaml.Tag
import SchemaCodecs.Yaml.Token
import SchemaCodecs.Proofs.Bundle.Agreement
import SchemaCodecs.Proofs.Bundle.Aliases
import SchemaCodecs.Proofs.Bundle.Answers
import SchemaCodecs.Proofs.Bundle.Calls
import SchemaCodecs.Proofs.Bundle.Copies
import SchemaCodecs.Proofs.Bundle.Course
import SchemaCodecs.Proofs.Bundle.Deletion
import SchemaCodecs.Proofs.Bundle.Faithfulness
import SchemaCodecs.Proofs.Bundle.Faults
import SchemaCodecs.Proofs.Bundle.Gathering
import SchemaCodecs.Proofs.Bundle.Installation
import SchemaCodecs.Proofs.Bundle.Naming
import SchemaCodecs.Proofs.Bundle.Preservation
import SchemaCodecs.Proofs.Bundle.Pruning
import SchemaCodecs.Proofs.Bundle.Rebundling
import SchemaCodecs.Proofs.Bundle.Relocation
import SchemaCodecs.Proofs.Bundle.Repetition
import SchemaCodecs.Proofs.Bundle.Search
import SchemaCodecs.Proofs.Bundle.SelfContained
import SchemaCodecs.Proofs.Bundle.Session
import SchemaCodecs.Proofs.Bundle.Source
import SchemaCodecs.Proofs.Bundle.Unfolding
import SchemaCodecs.Proofs.Bundle.Unlabelled
import SchemaCodecs.Proofs.Bundle.Walk
import SchemaCodecs.Proofs.Codec.Dangling
import SchemaCodecs.Proofs.Codec.Indentation
import SchemaCodecs.Proofs.Codec.Key
import SchemaCodecs.Proofs.Codec.Literal
import SchemaCodecs.Proofs.Codec.NormalForm
import SchemaCodecs.Proofs.Codec.Unambiguous
import SchemaCodecs.Proofs.CommandLine.Arguments
import SchemaCodecs.Proofs.CommandLine.Delivery
import SchemaCodecs.Proofs.CommandLine.Producing
import SchemaCodecs.Proofs.Compile.Accounting
import SchemaCodecs.Proofs.Compile.Containment
import SchemaCodecs.Proofs.Compile.Reordering
import SchemaCodecs.Proofs.Compile.Siblings
import SchemaCodecs.Proofs.Compile.Stages
import SchemaCodecs.Proofs.Compile.Strictness
import SchemaCodecs.Proofs.Config.Ignoring
import SchemaCodecs.Proofs.Config.Reading
import SchemaCodecs.Proofs.Config.Taking
import SchemaCodecs.Proofs.Declaration.Building
import SchemaCodecs.Proofs.Declaration.Complete
import SchemaCodecs.Proofs.Declaration.Failing
import SchemaCodecs.Proofs.Declaration.Mention
import SchemaCodecs.Proofs.Declaration.Omission
import SchemaCodecs.Proofs.Declaration.Parts
import SchemaCodecs.Proofs.Declaration.Resolving
import SchemaCodecs.Proofs.FileTree.Contents
import SchemaCodecs.Proofs.FileTree.Growth
import SchemaCodecs.Proofs.Number.Numeral
import SchemaCodecs.Proofs.Order.Breaking
import SchemaCodecs.Proofs.Order.Components
import SchemaCodecs.Proofs.Order.Greedy
import SchemaCodecs.Proofs.Order.Groups
import SchemaCodecs.Proofs.Order.Reach
import SchemaCodecs.Proofs.Order.References
import SchemaCodecs.Proofs.Order.Release
import SchemaCodecs.Proofs.Order.Resorting
import SchemaCodecs.Proofs.Order.Search
import SchemaCodecs.Proofs.Order.Sorting
import SchemaCodecs.Proofs.Order.Starting
import SchemaCodecs.Proofs.Order.Taking
import SchemaCodecs.Proofs.Reference.Decoding
import SchemaCodecs.Proofs.Reference.Escaping
import SchemaCodecs.Proofs.Reference.Selection
import SchemaCodecs.Proofs.Save.Atomic
import SchemaCodecs.Proofs.Schema.Classification
import SchemaCodecs.Proofs.Schema.Paths
import SchemaCodecs.Proofs.Schema.Places
import SchemaCodecs.Proofs.Schema.Siblings
import SchemaCodecs.Proofs.Text.Coding
import SchemaCodecs.Proofs.Value.Entries
import SchemaCodecs.Proofs.Value.Equality
import SchemaCodecs.Proofs.Value.Recurrence
import SchemaCodecs.Proofs.Value.Sameness
import SchemaCodecs.Proofs.Yaml.Distinct
import SchemaCodecs.Proofs.Yaml.Reading
import SchemaCodecs.Proofs.Yaml.Sharing
