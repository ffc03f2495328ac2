import Montage.Asset.Fetch
import Montage.Asset.Font
import Montage.Asset.Resolver
import Montage.Asset.Result
import Montage.Asset.Storage
import Montage.Command.Arguments
import Montage.Command.Cut
import Montage.Command.Export
import Montage.Command.Screen
import Montage.Cutting.Arrange
import Montage.Cutting.Extract
import Montage.Cutting.Merge
import Montage.Cutting.Passage
import Montage.Cutting.Position
import Montage.Cutting.Request
import Montage.Cutting.Response
import Montage.Cutting.Segment
import Montage.Sorting.Sort
import Montage.Cutting.Subtitle
import Montage.Engine.Basic
import Montage.Engine.Command
import Montage.Engine.Listing
import Montage.Engine.Progress
import Montage.Export.Job
import Montage.Export.Request
import Montage.Fault
import Montage.Files.Path
import Montage.Files.RealPath
import Montage.Files.Tree
import Montage.Graph.Caption
import Montage.Graph.Compile
import Montage.Graph.Edit
import Montage.Graph.Layer
import Montage.Graph.Quality
import Montage.Graph.Statement
import Montage.Graph.Text
import Montage.Graph.Token
import Montage.Json.Error
import Montage.Json.Reader
import Montage.Main
import Montage.Markup.Cursor
import Montage.Markup.Document
import Montage.Markup.Excerpt
import Montage.Markup.Lexer
import Montage.Markup.Merge
import Montage.Markup.Node
import Montage.Markup.Resolve
import Montage.Markup.Scalar
import Montage.Markup.Timestamp
import Montage.Markup.Token
import Montage.Markup.Writer
import Montage.Measure
import Montage.Number.Binary64
import Montage.Number.Decimal
import Montage.Number.Ratio
import Montage.Number.Rounding
import Montage.Number.Scientific
import Montage.Number.Shortest
import Montage.Proofs.Asset.Results
import Montage.Proofs.Cutting.Apart
import Montage.Proofs.Cutting.Merged
import Montage.Proofs.Export.Media
import Montage.Proofs.Graph.Arguments
import Montage.Proofs.Graph.Assembly
import Montage.Proofs.Graph.Decoding
import Montage.Proofs.Graph.Faults
import Montage.Proofs.Graph.Flow
import Montage.Proofs.Graph.Kept
import Montage.Proofs.Graph.LabelText
import Montage.Proofs.Graph.Linear
import Montage.Proofs.Graph.Picture
import Montage.Proofs.Graph.Pruned
import Montage.Proofs.Graph.Reading
import Montage.Proofs.Graph.Sound
import Montage.Proofs.Graph.Stack
import Montage.Proofs.Graph.Wiring
import Montage.Proofs.Number.HalfUp
import Montage.Proofs.Number.Maximum
import Montage.Proofs.Number.Nearest
import Montage.Proofs.Number.Order
import Montage.Proofs.Outcome
import Montage.Proofs.Sorting.Merging
import Montage.Proofs.Sorting.Order
import Montage.Proofs.Sorting.Permutation
import Montage.Proofs.Sorting.Search
import Montage.Proofs.Sorting.Stable
import Montage.Proofs.Studio.Session
import Montage.Render.Pool
import Montage.Render.Renderer
import Montage.Studio.Basic
import Montage.Terminal.Board
import Montage.Terminal.Duration
import Montage.Terminal.Export
import Montage.Terminal.Highlight
import Montage.Terminal.Styled
import Montage.Text.Base64
import Montage.Text.Blank
import Montage.Text.Bytes
import Montage.Text.Digit
import Montage.Text.Flips
import Montage.Text.Printable
import Montage.Text.Quoted
import Montage.Text.Word
import Montage.Timecode
import Montage.Timeline.Basic
import Montage.Timeline.Snapshot
import Montage.Timeline.Source
import Montage.Value
import Montage.Proofs.Graph.Muting
import Montage.Proofs.Graph.Muted
import Montage.Proofs.Graph.Legible
import Montage.Proofs.Render.Probing
import Montage.Proofs.Export.FileNames
import Montage.Proofs.Graph.DrawTexts
import Montage.Proofs.Export.Supply
import Montage.Proofs.Export.Workspace
import Montage.Proofs.Files.Faults
import Montage.Proofs.Engine.Installed
import Montage.Proofs.Render.Parts
import Montage.Proofs.Export.Closed
import Montage.Proofs.Render.Stage
import Montage.Proofs.Render.Holding
import Montage.Proofs.Render.Runs
import Montage.Proofs.Files.Following
import Montage.Proofs.Files.RealPath
import Montage.Proofs.Asset.Contained
import Montage.Proofs.Number.Quotient
import Montage.Proofs.Number.Shortest
import Montage.Proofs.Number.Literal
import Montage.Proofs.Graph.Compilable
import Montage.Proofs.Graph.Styled
import Montage.Proofs.Number.Milliseconds
import Montage.Proofs.Graph.InSync
import Montage.Proofs.Graph.Masked
import Montage.Proofs.Render.Heard
import Montage.Proofs.Export.Planned
import Montage.Proofs.Render.Answering
import Montage.Proofs.Cutting.Numbered
import Montage.Proofs.Cutting.Extracted
import Montage.Proofs.Number.Difference
import Montage.Proofs.Number.Monotone
import Montage.Proofs.Number.Stamp
import Montage.Proofs.Graph.Film
import Montage.Proofs.Cutting.Aligned
import Montage.Proofs.Cutting.SubRip
import Montage.Proofs.Cutting.Subtitled
import Montage.Proofs.Cutting.Edited
import Montage.Proofs.Json.Pieces
import Montage.Proofs.Json.Reading
import Montage.Proofs.Cutting.Answered
import Montage.Proofs.Files.Changes
import Montage.Proofs.Files.Workspaces
import Montage.Proofs.Studio.AtRest
import Montage.Proofs.Engine.Confined
import Montage.Proofs.Render.Footprint
import Montage.Proofs.Export.Atomic
import Montage.Proofs.Files.Folders
import Montage.Proofs.Command.Joined
import Montage.Proofs.Command.Reported
import Montage.Proofs.Cutting.Coarser
import Montage.Proofs.Cutting.Shuffled
import Montage.Proofs.Number.Context
import Montage.Proofs.Number.Sexagesimal
import Montage.Proofs.Asset.Preferred
import Montage.Proofs.Export.Refused
import Montage.Proofs.Graph.Interleaved
import Montage.Proofs.Text.Case
import Montage.Proofs.Number.Places
import Montage.Proofs.Graph.Covered
import Montage.Proofs.Cutting.Concatenated
import Montage.Proofs.Number.Percent
import Montage.Proofs.Engine.Progressing
import Montage.Proofs.Render.Told
import Montage.Proofs.Command.Steady
import Montage.Proofs.Asset.Fonts
import Montage.Proofs.Number.Clock
import Montage.Proofs.Graph.Anchors
import Montage.Proofs.Terminal.Shown
import Montage.Proofs.Terminal.Span
