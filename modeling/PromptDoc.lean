import PromptDoc.Canonical
import PromptDoc.Command.Arguments
import PromptDoc.Command.Format
import PromptDoc.Command.Lint
import PromptDoc.Command.Outcome
import PromptDoc.Command.Run
import PromptDoc.Decimal.Binary64
import PromptDoc.Decimal.Extended
import PromptDoc.Decimal.Notation
import PromptDoc.Decimal.Reading
import PromptDoc.Decimal.Shortest
import PromptDoc.Decimal.Width
import PromptDoc.Files.Collect
import PromptDoc.Files.Path
import PromptDoc.Files.Selection
import PromptDoc.Files.Tree
import PromptDoc.FrontMatter.Envelope
import PromptDoc.FrontMatter.Findings
import PromptDoc.FrontMatter.Stable
import PromptDoc.Json.Pointer
import PromptDoc.Json.Printer
import PromptDoc.Json.Reader
import PromptDoc.Json.Value
import PromptDoc.Keyed
import PromptDoc.Main
import PromptDoc.Prompt.Basic
import PromptDoc.Prompt.Decode
import PromptDoc.Prompt.Encode
import PromptDoc.Prompt.Parse
import PromptDoc.Schema.Basic
import PromptDoc.Schema.Edition
import PromptDoc.Schema.Rule
import PromptDoc.Settings.Basic
import PromptDoc.Settings.Decode
import PromptDoc.Settings.Layer
import PromptDoc.Settings.Load
import PromptDoc.Template
import PromptDoc.Text.CaseTable
import PromptDoc.Text.Diff.Compact
import PromptDoc.Text.Diff.Edit
import PromptDoc.Text.Diff.Unified
import PromptDoc.Text.Lines
import PromptDoc.Text.Lowercase
import PromptDoc.Text.Pieces
import PromptDoc.Text.Space
import PromptDoc.Text.Utf8
import PromptDoc.Toml.Moment
import PromptDoc.Toml.Quoted
import PromptDoc.Toml.Reader
import PromptDoc.Toml.Scalar
import PromptDoc.Toml.Table
import PromptDoc.Toml.Value
import PromptDoc.Toml.Writer
import PromptDoc.Version
import PromptDoc.Violation
import PromptDoc.Yaml.Block
import PromptDoc.Yaml.Character
import PromptDoc.Yaml.Document
import PromptDoc.Yaml.Node
import PromptDoc.Yaml.Quoted
import PromptDoc.Yaml.Reference
import PromptDoc.Yaml.Scalar
import PromptDoc.Yaml.Source
import PromptDoc.Yaml.Token.Basic
import PromptDoc.Yaml.Token.Block
import PromptDoc.Yaml.Token.Lexer
import PromptDoc.Yaml.Token.Plain
import PromptDoc.Yaml.Token.Property
import PromptDoc.Yaml.Token.Quoted
import PromptDoc.Yaml.Value
import PromptDoc.Yaml.Writer
import PromptDoc.Proofs.Canonical
import PromptDoc.Proofs.Decimal.Rational
import PromptDoc.Proofs.FrontMatter.Envelope
import PromptDoc.Proofs.FrontMatter.Output
import PromptDoc.Proofs.FrontMatter.Stable
import PromptDoc.Proofs.Text.Lines
import PromptDoc.Proofs.Json.Related
import PromptDoc.Proofs.Prompt.Alike
import PromptDoc.Proofs.Prompt.Decodable
import PromptDoc.Proofs.Prompt.Faithful
import PromptDoc.Proofs.Prompt.Kept
import PromptDoc.Proofs.Prompt.KeyOrder
import PromptDoc.Proofs.Prompt.Parts
import PromptDoc.Proofs.Prompt.Root
import PromptDoc.Proofs.Prompt.RoundTrip
import PromptDoc.Proofs.Prompt.Undeclared
import PromptDoc.Proofs.Prompt.Versions
import PromptDoc.Proofs.Schema.Report
import PromptDoc.Proofs.Prompt.Consistent
import PromptDoc.Proofs.Schema.Fieldwise
import PromptDoc.Proofs.Command.Format
import PromptDoc.Proofs.FrontMatter.Lenient
import PromptDoc.Proofs.FrontMatter.LineBreaks
import PromptDoc.Proofs.Yaml.Compact.Text
import PromptDoc.Proofs.Yaml.Compact.Lexing
import PromptDoc.Proofs.Yaml.Compact.Nodes
import PromptDoc.Proofs.Yaml.Compact.RoundTrip
import PromptDoc.Proofs.FrontMatter.FirstDelimiter
import PromptDoc.Proofs.FrontMatter.Findings
import PromptDoc.Proofs.NormalForm
import PromptDoc.Proofs.FrontMatter.Rejoin
import PromptDoc.Proofs.FrontMatter.Changes
import PromptDoc.Proofs.Yaml.Entries
import PromptDoc.Proofs.Json.Pointer
import PromptDoc.Proofs.Schema.Places
import PromptDoc.Proofs.Schema.Paths
import PromptDoc.Proofs.Yaml.Filling
import PromptDoc.Proofs.Yaml.Literal
import PromptDoc.Proofs.Yaml.OneLine
import PromptDoc.Proofs.Files.Join
import PromptDoc.Proofs.Files.Plain
import PromptDoc.Proofs.Files.Exact
