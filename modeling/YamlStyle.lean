import YamlStyle.Text
import YamlStyle.Text.Invisible
import YamlStyle.Text.Quoted
import YamlStyle.Text.WhiteSpace
import YamlStyle.Table
import YamlStyle.Line
import YamlStyle.Line.Index
import YamlStyle.Token
import YamlStyle.Token.Scanner
import YamlStyle.Token.Stream
import YamlStyle.Token.Window
import YamlStyle.Directive
import YamlStyle.Suppression
import YamlStyle.Value
import YamlStyle.Value.Double
import YamlStyle.Value.Escaped
import YamlStyle.Value.Environment
import YamlStyle.Value.Json
import YamlStyle.Value.Merge
import YamlStyle.Value.Mismatch
import YamlStyle.Value.Toml.Tables
import YamlStyle.Value.Toml.DateTime
import YamlStyle.Value.Toml.Words
import YamlStyle.Value.Toml
import YamlStyle.Value.Yaml.Cursor
import YamlStyle.Value.Yaml.Words
import YamlStyle.Value.Yaml.Scalar
import YamlStyle.Value.Yaml.BlockScalar
import YamlStyle.Value.Yaml.Lexeme
import YamlStyle.Value.Yaml.Property
import YamlStyle.Value.Yaml.Lexer
import YamlStyle.Value.Yaml.Node
import YamlStyle.Value.Yaml
import YamlStyle.Problem
import YamlStyle.Problem.Value
import YamlStyle.Rule
import YamlStyle.Rule.Option
import YamlStyle.Rule.Setting
import YamlStyle.Rule.Resolve
import YamlStyle.Rule.DocumentStart
import YamlStyle.Rule.EmptyLines
import YamlStyle.Rule.TrailingSpaces
import YamlStyle.Rule.Catalog
import YamlStyle.Rule.Probe
import YamlStyle.Lint
import YamlStyle.Lint.Reader
import YamlStyle.Lint.Batch
import YamlStyle.Glob
import YamlStyle.Glob.Parse
import YamlStyle.Glob.Kind
import YamlStyle.Glob.Depth
import YamlStyle.Ignore
import YamlStyle.FileTree
import YamlStyle.FileTree.Written
import YamlStyle.FileTree.Create
import YamlStyle.Config
import YamlStyle.Config.Search
import YamlStyle.Config.Load
import YamlStyle.Cli.Arguments
import YamlStyle.Cli.Style
import YamlStyle.Cli.Failure
import YamlStyle.Cli.World
import YamlStyle.Cli.Logging
import YamlStyle.Cli.Lint
import YamlStyle.Cli.Rules
import YamlStyle.Cli.Info
import YamlStyle.Cli.Run
import YamlStyle.Cli.Survey
import YamlStyle.Main
import YamlStyle.Proofs.Table.Lookup
import YamlStyle.Proofs.Text.Boundary
import YamlStyle.Proofs.Line.EndsLine
import YamlStyle.Proofs.Line.Below
import YamlStyle.Proofs.Token.Window
import YamlStyle.Proofs.Suppression.Ledger
import YamlStyle.Proofs.Suppression.Replay
import YamlStyle.Proofs.Scanner.Shape
import YamlStyle.Proofs.Scanner.Tiling
import YamlStyle.Proofs.Scanner.Partition
import YamlStyle.Proofs.Scanner.Block
import YamlStyle.Proofs.Scanner.Quoted
import YamlStyle.Proofs.Scanner.Lookahead
import YamlStyle.Proofs.Scanner.Lockstep
import YamlStyle.Proofs.Scanner.Seam
import YamlStyle.Proofs.LineEnding.Crlf
import YamlStyle.Proofs.LineEnding.Scanner
import YamlStyle.Proofs.LineEnding.Lines
import YamlStyle.Proofs.LineEnding.Stream
import YamlStyle.Proofs.LineEnding.Lint
import YamlStyle.Proofs.BlankLines.Above
import YamlStyle.Proofs.Sort.Stable
import YamlStyle.Proofs.Rule.Answers
import YamlStyle.Proofs.Suppression.Marker
import YamlStyle.Proofs.Text.ByteOrder
import YamlStyle.Proofs.Lint.Report
import YamlStyle.Proofs.Lint.Tokens
import YamlStyle.Proofs.Lint.Independence
import YamlStyle.Proofs.Lint.Batch
import YamlStyle.Proofs.Lint.Faults
import YamlStyle.Proofs.Line.Locate
import YamlStyle.Proofs.Lint.Places
import YamlStyle.Proofs.Json.Lexeme
import YamlStyle.Proofs.Json.Scan
import YamlStyle.Proofs.BlankLines.Runs
import YamlStyle.Proofs.Value.Orderly
import YamlStyle.Proofs.Value.Readers
import YamlStyle.Proofs.Value.Toml
import YamlStyle.Proofs.Rule.Prevail
import YamlStyle.Proofs.Config.Layers
import YamlStyle.Proofs.Cli.Report
import YamlStyle.Proofs.Line.Segmentation
import YamlStyle.Proofs.Line.Offsets
import YamlStyle.Proofs.Scanner.Brackets
import YamlStyle.Proofs.Scanner.TokenEnd
import YamlStyle.Proofs.Scanner.Comments
import YamlStyle.Proofs.Suppression.Target
import YamlStyle.Proofs.Text.Words
import YamlStyle.Proofs.Directive.Grammar
import YamlStyle.Proofs.Rule.DocumentStart
import YamlStyle.Proofs.Scanner.QuotedBytes
import YamlStyle.Proofs.Scanner.LineStart
import YamlStyle.Proofs.Scanner.Markers
import YamlStyle.Proofs.Rule.Resolution
import YamlStyle.Proofs.Rule.Refusal
import YamlStyle.Proofs.Scanner.BlockLines
import YamlStyle.Proofs.Scanner.Plain
import YamlStyle.Proofs.Scanner.Gap
import YamlStyle.Proofs.Scanner.Locality
import YamlStyle.Proofs.Scanner.Unspaced
import YamlStyle.Proofs.Config.Discovery
import YamlStyle.Proofs.Rule.RoundTrip
import YamlStyle.Proofs.Rule.TrailingSpaces
import YamlStyle.Proofs.Text.Ascii
import YamlStyle.Proofs.Line.Starts
import YamlStyle.Proofs.Cursor.Machine
import YamlStyle.Proofs.Cursor.Reads
import YamlStyle.Proofs.Cursor.Walks
import YamlStyle.Proofs.Cursor.Lockstep
import YamlStyle.Proofs.Cursor.Rounds
import YamlStyle.Proofs.Cursor.Invariant
