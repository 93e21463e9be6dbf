import YangFormatter.Benchmark.Invocation
import YangFormatter.Benchmark.Session
import YangFormatter.Benchmark.SortKey
import YangFormatter.CommandLine.Arguments
import YangFormatter.CommandLine.Invocation
import YangFormatter.CommandLine.Plan
import YangFormatter.CommandLine.Session
import YangFormatter.Files.Path
import YangFormatter.Files.Workspace
import YangFormatter.Format
import YangFormatter.Format.Failure
import YangFormatter.Layout
import YangFormatter.Layout.Obstacle
import YangFormatter.Machine
import YangFormatter.Main
import YangFormatter.Number.Double
import YangFormatter.Number.Rounding
import YangFormatter.Problem
import YangFormatter.Proofs.Format.Attempt
import YangFormatter.Proofs.Format.Content
import YangFormatter.Proofs.Format.Idempotence
import YangFormatter.Proofs.Format.RoundTrip
import YangFormatter.Proofs.Format.Stranding
import YangFormatter.Proofs.Layout.Nodes
import YangFormatter.Proofs.Layout.Reading
import YangFormatter.Proofs.Layout.Relayout
import YangFormatter.Proofs.Layout.Statement
import YangFormatter.Proofs.Reading.Completion
import YangFormatter.Proofs.Text.Lines
import YangFormatter.Proofs.Text.Margin
import YangFormatter.Proofs.Tidy.Arrangement
import YangFormatter.Proofs.Tidy.Header
import YangFormatter.Proofs.Tidy.Indentation
import YangFormatter.Proofs.Tidy.Quotation
import YangFormatter.Proofs.Tidy.Tree
import YangFormatter.Proofs.Token.Grammar
import YangFormatter.Proofs.Token.Returns
import YangFormatter.Proofs.Tree.Pieces
import YangFormatter.Reading.Header
import YangFormatter.Reading.Statement
import YangFormatter.Reading.Tree
import YangFormatter.Source
import YangFormatter.Style
import YangFormatter.Text.Basic
import YangFormatter.Text.Blank
import YangFormatter.Text.Margin
import YangFormatter.Text.Numeral
import YangFormatter.Text.Position
import YangFormatter.Text.Printable
import YangFormatter.Text.Quoted
import YangFormatter.Text.Span
import YangFormatter.Text.Utf8
import YangFormatter.Tidy.Attempt
import YangFormatter.Tidy.EmptyLines
import YangFormatter.Tidy.Header
import YangFormatter.Tidy.Order
import YangFormatter.Tidy.Quotation
import YangFormatter.Tidy.Tree
import YangFormatter.Token.Basic
import YangFormatter.Token.Cursor
import YangFormatter.Token.Lexer
import YangFormatter.Token.Stream
import YangFormatter.Token.Table
import YangFormatter.Tree.Basic
import YangFormatter.Tree.Keyword
import YangFormatter.Tree.Outline
import YangFormatter.Proofs.Token.LexicalGrammar
import YangFormatter.Proofs.Reading.Grammar
import YangFormatter.Proofs.Format.Comments
import YangFormatter.Proofs.Token.Coverage
import YangFormatter.Proofs.Tidy.Flaws
import YangFormatter.Proofs.Tidy.CanonicalOrder
import YangFormatter.Proofs.Reading.Region
import YangFormatter.Proofs.Reading.Viability
import YangFormatter.Proofs.Reading.Spacing
import YangFormatter.Proofs.Format.Spacing
import YangFormatter.Proofs.Format.Wrapping
import YangFormatter.Proofs.Text.Utf8
import YangFormatter.Proofs.Tidy.Correspondence
import YangFormatter.Proofs.Files.Workspace
import YangFormatter.Proofs.CommandLine.Execution
import YangFormatter.Proofs.CommandLine.Inputs
import YangFormatter.Proofs.CommandLine.Effects
import YangFormatter.Proofs.CommandLine.Checking
import YangFormatter.Proofs.Tidy.EmptyLines
import YangFormatter.Proofs.Tidy.Requoting
import YangFormatter.Proofs.Reading.Leftmost
import YangFormatter.Proofs.Tidy.Dedenting
import YangFormatter.Proofs.Reading.BlankLines
import YangFormatter.Proofs.Layout.Levels
import YangFormatter.Proofs.Format.Report
import YangFormatter.Proofs.Format.Bytes
import YangFormatter.Proofs.Layout.Multiline
import YangFormatter.Proofs.Text.Position
import YangFormatter.Proofs.CommandLine.Output
import YangFormatter.Proofs.Reading.Cursor
import YangFormatter.Proofs.Reading.Statement
import YangFormatter.Proofs.Token.Cursor
