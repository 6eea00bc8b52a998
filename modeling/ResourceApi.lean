import ResourceApi.Naming
import ResourceApi.Description
import ResourceApi.OpenApi.Compile
import ResourceApi.OpenApi.Read
import ResourceApi.Lint.Builtin
import ResourceApi.Template.Source
import ResourceApi.Check
import ResourceApi.Latest
import ResourceApi.Workspace.Documents
import ResourceApi.Main
import ResourceApi.Proofs.Descriptions
import ResourceApi.Proofs.Dictionaries
import ResourceApi.Proofs.Json.Coverage
import ResourceApi.Proofs.Json.Decoding
import ResourceApi.Proofs.Json.Grammar
import ResourceApi.Proofs.Json.Lists
import ResourceApi.Proofs.Json.Numeral
import ResourceApi.Proofs.Json.Places
import ResourceApi.Proofs.Json.Pointers
import ResourceApi.Proofs.Json.Progress
import ResourceApi.Proofs.Json.Quoted
import ResourceApi.Proofs.Json.Reading
import ResourceApi.Proofs.Json.Records
import ResourceApi.Proofs.Json.Scanning
import ResourceApi.Proofs.Json.Selecting
import ResourceApi.Proofs.Json.SelectorText
import ResourceApi.Proofs.Json.Cutting
import ResourceApi.Proofs.Json.DocumentOrder
import ResourceApi.Proofs.Json.Skipping
import ResourceApi.Proofs.Json.Trees
import ResourceApi.Proofs.Lint.GeneratorSyntax
import ResourceApi.Proofs.Lint.Parameters
import ResourceApi.Proofs.Lint.Conformance
import ResourceApi.Proofs.Lint.Names
import ResourceApi.Proofs.Lint.Violations
import ResourceApi.Proofs.Lint.Assertions
import ResourceApi.Proofs.Naming
import ResourceApi.Proofs.Naming.Plain
import ResourceApi.Proofs.OpenApi.Paths
import ResourceApi.Proofs.OpenApi.Targets
import ResourceApi.Proofs.OpenApi.Survivors
import ResourceApi.Proofs.OpenApi.OperationIds
import ResourceApi.Proofs.OpenApi.References
import ResourceApi.Proofs.OpenApi.YamlText
import ResourceApi.Proofs.Pattern.Matching
import ResourceApi.Proofs.Schema.Places
import ResourceApi.Proofs.Schema.Valid
import ResourceApi.Proofs.Text.LetterCase
import ResourceApi.Proofs.Text.Lines
import ResourceApi.Proofs.Text.LineTable
import ResourceApi.Proofs.Latest
import ResourceApi.Proofs.Workspace
import ResourceApi.Proofs.Command.Watch
import ResourceApi.Proofs.Command.Completion
import ResourceApi.Proofs.Command.Agreement
import ResourceApi.Proofs.Template.Markers
import ResourceApi.Proofs.Template.Rerendering
import ResourceApi.Proofs.Json.Printing
import ResourceApi.Proofs.Json.Typed
import ResourceApi.Proofs.Json.Encoding
import ResourceApi.Proofs.OpenApi.Documents
import ResourceApi.Proofs.RoundTrip
import ResourceApi.Proofs.Formatting
import ResourceApi.Proofs.Lint.ParseFailures
import ResourceApi.Proofs.Json.Nesting
import ResourceApi.Proofs.Json.Prefixes
import ResourceApi.Proofs.Canonical
import ResourceApi.Proofs.MissingFields
import ResourceApi.Proofs.Json.Escapes
import ResourceApi.Proofs.Naming.Styles
import ResourceApi.Proofs.OpenApi.Spellings
import ResourceApi.Proofs.Lint.Reports
import ResourceApi.Proofs.Text.Splitting
import ResourceApi.Proofs.Workspace.Paths
import ResourceApi.Proofs.Workspace.Changes
import ResourceApi.Proofs.Template.Sources
