import BlockTemplate.Text.Basic
import BlockTemplate.Text.Blank
import BlockTemplate.Span
import BlockTemplate.Markup.Token
import BlockTemplate.Markup.Piece
import BlockTemplate.Level
import BlockTemplate.Path
import BlockTemplate.Files.Basic
import BlockTemplate.Files.Tree
import BlockTemplate.Settings.Basic
import BlockTemplate.Notice
import BlockTemplate.Origin
import BlockTemplate.Value
import BlockTemplate.Bindings
import BlockTemplate.Error
import BlockTemplate.Rendering.Substitution
import BlockTemplate.Rendering.Slot
import BlockTemplate.Rendering.BlankLines
import BlockTemplate.Block.Basic
import BlockTemplate.Block.Snapshot
import BlockTemplate.Block.Build
import BlockTemplate.Block.Outline
import BlockTemplate.Block.Address
import BlockTemplate.Template
import BlockTemplate.Decimal.Binary
import BlockTemplate.Decimal.Shortest
import BlockTemplate.Toml.Datetime
import BlockTemplate.Toml.Node
import BlockTemplate.Toml.Reader
import BlockTemplate.Toml.Scalar
import BlockTemplate.Toml.Table
import BlockTemplate.Toml.Document
import BlockTemplate.Toml.Value
import BlockTemplate.Text.Hidden
import BlockTemplate.Text.Quoted
import BlockTemplate.Settings.Document
import BlockTemplate.Text.Width
import BlockTemplate.Lint.Warning
import BlockTemplate.Lint.Check
import BlockTemplate.Lint.Diagram
import BlockTemplate.CommandLine.Arguments
import BlockTemplate.CommandLine.Options
import BlockTemplate.CommandLine.Usage
import BlockTemplate.Text.Terminal
import BlockTemplate.CommandLine.Log
import BlockTemplate.CommandLine.Run
import BlockTemplate.Main
import BlockTemplate.Proofs.Text.Search
import BlockTemplate.Proofs.Text.Lines
import BlockTemplate.Proofs.Text.Runs
import BlockTemplate.Proofs.Markup.Stretch
import BlockTemplate.Proofs.Markup.Written
import BlockTemplate.Proofs.Markup.Position
import BlockTemplate.Proofs.Markup.Splicing
import BlockTemplate.Proofs.Markup.Occurrence
import BlockTemplate.Proofs.Markup.Exactness
import BlockTemplate.Proofs.Level.Regions
import BlockTemplate.Proofs.Level.Markers
import BlockTemplate.Proofs.Block.Sighting
import BlockTemplate.Proofs.Block.Unread
import BlockTemplate.Proofs.Lint.Agreement
import BlockTemplate.Proofs.Document.Basic
import BlockTemplate.Proofs.Block.Placing
import BlockTemplate.Proofs.Block.Binding
import BlockTemplate.Proofs.Document.Pieces
import BlockTemplate.Proofs.Level.Pairing
import BlockTemplate.Proofs.Document.RoundTrip
import BlockTemplate.Proofs.Lint.Reading
import BlockTemplate.Proofs.Lint.Accounting
import BlockTemplate.Proofs.Lint.Clean
import BlockTemplate.Proofs.Lint.Siblings
import BlockTemplate.Proofs.Lint.Standing
import BlockTemplate.Proofs.Rendering.Clearing
import BlockTemplate.Proofs.Rendering.Collapsing
import BlockTemplate.Proofs.Block.Cleared
import BlockTemplate.Proofs.Text.Replacement
import BlockTemplate.Proofs.Block.Literal
import BlockTemplate.Proofs.Rendering.Filling
import BlockTemplate.Proofs.Rendering.Substituting
import BlockTemplate.Proofs.Rendering.Placeholders
import BlockTemplate.Proofs.Rendering.Fragments
import BlockTemplate.Proofs.Rendering.Blanking
import BlockTemplate.Proofs.Block.Placeholders
import BlockTemplate.Proofs.Block.Verbatim
import BlockTemplate.Proofs.Block.Source
import BlockTemplate.Proofs.Block.WellFormed
import BlockTemplate.Proofs.Block.Ending
import BlockTemplate.Proofs.Block.ChildrenFirst
import BlockTemplate.Proofs.Block.Run
import BlockTemplate.Proofs.Block.Step
import BlockTemplate.Proofs.Block.Pending
import BlockTemplate.Proofs.Block.Scope
import BlockTemplate.Proofs.Rendering.Cells
import BlockTemplate.Proofs.Rendering.Row
import BlockTemplate.Proofs.Rendering.Unseparated
import BlockTemplate.Proofs.Level.Row
import BlockTemplate.Proofs.Level.Slices
import BlockTemplate.Proofs.Level.Between
import BlockTemplate.Proofs.Level.Matching
import BlockTemplate.Proofs.Level.Examined
import BlockTemplate.Proofs.Block.Modes
import BlockTemplate.Proofs.Block.Stripped
import BlockTemplate.Proofs.Document.Row
import BlockTemplate.Proofs.Block.Separated
import BlockTemplate.Proofs.Block.Interleaving
import BlockTemplate.Proofs.CommandLine.Linting
import BlockTemplate.Proofs.Text.Utf8
import BlockTemplate.Proofs.Toml.KeyOrder
import BlockTemplate.Proofs.Block.Fresh
import BlockTemplate.Proofs.CommandLine.Precedence
import BlockTemplate.Proofs.Value.Leaves
import BlockTemplate.Proofs.Block.Structured
import BlockTemplate.Proofs.Origin.Expanding
import BlockTemplate.Proofs.Origin.Below
import BlockTemplate.Proofs.Lint.Location
