import UmlDraw.Activity.Drawing
import UmlDraw.Activity.Reader
import UmlDraw.Class.Drawing
import UmlDraw.Class.Reader
import UmlDraw.CommandLine.Run
import UmlDraw.Conversion.Registry
import UmlDraw.Data.Json
import UmlDraw.Description.Drawing
import UmlDraw.Description.Reader
import UmlDraw.Dialect.Evidence
import UmlDraw.Drawing.Document
import UmlDraw.Layout.Layering
import UmlDraw.Main
import UmlDraw.Proofs.Activity.Count
import UmlDraw.Proofs.Activity.Flow
import UmlDraw.Proofs.Activity.Notation
import UmlDraw.Proofs.Activity.Order
import UmlDraw.Proofs.Activity.Printing
import UmlDraw.Proofs.Conversion.Frame
import UmlDraw.Proofs.Conversion.Source
import UmlDraw.Proofs.Data.Outcome
import UmlDraw.Proofs.Data.Printing
import UmlDraw.Proofs.Drawing.Activity
import UmlDraw.Proofs.Drawing.Canvas
import UmlDraw.Proofs.Drawing.Relation
import UmlDraw.Proofs.Drawing.Dialect
import UmlDraw.Proofs.Drawing.Sequence
import UmlDraw.Proofs.Markup.Cell
import UmlDraw.Proofs.Markup.Document
import UmlDraw.Proofs.Markup.Grammar
import UmlDraw.Proofs.Markup.Tag
import UmlDraw.Proofs.Markup.WellFormed
import UmlDraw.Proofs.Sequence.Arrows
import UmlDraw.Proofs.Sequence.Bars
import UmlDraw.Proofs.State.Layout
import UmlDraw.Proofs.State.Placement
import UmlDraw.Proofs.State.Reader
import UmlDraw.Proofs.State.Transitions
import UmlDraw.Proofs.State.Shown
import UmlDraw.Proofs.State.TableDrawing
import UmlDraw.Proofs.Text.Replaced
import UmlDraw.Proofs.Text.Lines
import UmlDraw.Proofs.Text.Reading
import UmlDraw.Proofs.Text.Search
import UmlDraw.Relation.Drawing
import UmlDraw.Relation.Note
import UmlDraw.Sequence.Drawing
import UmlDraw.Sequence.Reader
import UmlDraw.Settings.Toml
import UmlDraw.Source.Line
import UmlDraw.State.Drawing
import UmlDraw.State.Reader
import UmlDraw.Timing.Drawing
import UmlDraw.Timing.Reader
import UmlDraw.Proofs.Sequence.Returns
import UmlDraw.Proofs.Drawing.Cluster
import UmlDraw.Proofs.Class.Shown
import UmlDraw.Proofs.Layout.Layering
import UmlDraw.Proofs.Class.Reader
import UmlDraw.Proofs.Text.Result
import UmlDraw.Proofs.Description.Reader
import UmlDraw.Proofs.Description.Shown
import UmlDraw.Proofs.Class.Document
import UmlDraw.Proofs.Activity.Place
import UmlDraw.Proofs.Activity.Room
import UmlDraw.Proofs.Class.Frame
import UmlDraw.Proofs.Class.MemberText
import UmlDraw.Proofs.Class.Place
import UmlDraw.Proofs.Description.Place
import UmlDraw.Proofs.Number.Overflow
import UmlDraw.Proofs.State.Arrangement
import UmlDraw.Proofs.State.Growth
import UmlDraw.Proofs.State.Place
import UmlDraw.Proofs.Dialect.Growth
import UmlDraw.Proofs.State.Marks
import UmlDraw.Proofs.Class.Coherent
import UmlDraw.Proofs.Dialect.Comment
import UmlDraw.Proofs.Conversion.LineEnds
import UmlDraw.Proofs.Activity.ExitLabel
import UmlDraw.Proofs.Timing.Overflow
import UmlDraw.Proofs.Conversion.Ungrouped
import UmlDraw.Proofs.Sequence.Frames
import UmlDraw.Proofs.Sequence.WrittenArrow
import UmlDraw.Proofs.Sequence.DrawingOrder
import UmlDraw.Proofs.Sequence.Naming
import UmlDraw.Proofs.Sequence.ArrowNotes
import UmlDraw.Proofs.Description.Declared
import UmlDraw.Proofs.Timing.Recorded
import UmlDraw.Proofs.Layout.Gathering
import UmlDraw.Proofs.Text.Indentation
import UmlDraw.Proofs.Dialect.Closer
