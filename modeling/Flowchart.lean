import Flowchart.Command
import Flowchart.Command.Options
import Flowchart.Command.World
import Flowchart.Compile
import Flowchart.Decimal.Shortest
import Flowchart.Decimal.Text
import Flowchart.Diagram
import Flowchart.Diagram.Validity
import Flowchart.Files
import Flowchart.Graph
import Flowchart.Graph.Builder
import Flowchart.Graph.Json
import Flowchart.Highlight
import Flowchart.Json.Basic
import Flowchart.Json.Reader
import Flowchart.Json.Writer
import Flowchart.Label
import Flowchart.Language
import Flowchart.Log
import Flowchart.Main
import Flowchart.Proofs.BackEdges
import Flowchart.Proofs.Compile
import Flowchart.Proofs.Decisions
import Flowchart.Proofs.Diagram.Assembly
import Flowchart.Proofs.Diagram.Header
import Flowchart.Proofs.Diagram.Lines
import Flowchart.Proofs.Diagram.Writable
import Flowchart.Proofs.Drawing.Drawn
import Flowchart.Proofs.Drawing.Flow
import Flowchart.Proofs.Drawing.Layout
import Flowchart.Proofs.Drawing.Sketch
import Flowchart.Proofs.Drawing.Visits
import Flowchart.Proofs.Growth
import Flowchart.Proofs.Identifier
import Flowchart.Proofs.Label
import Flowchart.Proofs.Lowering
import Flowchart.Proofs.Session.Commits
import Flowchart.Proofs.Session.Outcome
import Flowchart.Proofs.Session.Run
import Flowchart.Proofs.Text
import Flowchart.Proofs.WellFormed
import Flowchart.Query.Clause
import Flowchart.Query.Lowering
import Flowchart.Query.Scan
import Flowchart.Query.Structure
import Flowchart.Query.Text
import Flowchart.Render
import Flowchart.Session
import Flowchart.Session.Clock
import Flowchart.Settings
import Flowchart.Source.Abstract
import Flowchart.Source.Braced
import Flowchart.Source.Concrete
import Flowchart.Source.Indented
import Flowchart.Source.Json
import Flowchart.Source.Parsers
import Flowchart.Source.Vocabulary
import Flowchart.Stmt
import Flowchart.Stmt.Lowering
import Flowchart.Svg.Element
import Flowchart.Svg.Substitution
import Flowchart.Text.Blank
import Flowchart.Text.Class
import Flowchart.Text.Fold
import Flowchart.Text.Lines
import Flowchart.Text.Nesting
import Flowchart.Text.Property
import Flowchart.Text.Quoted
import Flowchart.Text.Search
import Flowchart.Text.Utf8
import Flowchart.Trace
import Flowchart.Trace.Model
import Flowchart.Zoom
import Flowchart.Proofs.Svg.Attributes
import Flowchart.Proofs.Highlight.Shapes
import Flowchart.Proofs.Highlight.Labels
import Flowchart.Proofs.Highlight.Looks
import Flowchart.Proofs.Highlight.Display
import Flowchart.Proofs.Highlight.History
import Flowchart.Proofs.Highlight.ElementIds
import Flowchart.Proofs.Highlight.Lines
import Flowchart.Proofs.Session.Clock
import Flowchart.Proofs.Drawing.Emitted
import Flowchart.Proofs.Label.Escaping
import Flowchart.Proofs.Drawing.Steps
import Flowchart.Proofs.Drawing.Opening
import Flowchart.Proofs.Drawing.Stops
import Flowchart.Proofs.Scopes
import Flowchart.Proofs.Reachability
import Flowchart.Proofs.Render
import Flowchart.Proofs.Drawing.Incoming
import Flowchart.Proofs.Guards
import Flowchart.Proofs.Query.Path
import Flowchart.Proofs.Census
import Flowchart.Proofs.Drawing.Twins
import Flowchart.Proofs.Independence
import Flowchart.Proofs.Diagram.Outline
import Flowchart.Proofs.Diagram.Reading
import Flowchart.Proofs.Diagram.Faithful
import Flowchart.Proofs.Text.LineNumbers
import Flowchart.Proofs.Query.Positions
import Flowchart.Proofs.Trace.Reports
import Flowchart.Proofs.Trace.Prompt
import Flowchart.Proofs.Session.Shown
import Flowchart.Proofs.Command
import Flowchart.Proofs.Query.Ink
import Flowchart.Proofs.Query.Comments
import Flowchart.Proofs.Text.Words
import Flowchart.Proofs.Source.Cases
import Flowchart.Proofs.Source.Stacked
import Flowchart.Proofs.Query.Trees
import Flowchart.Proofs.Text.Utf8
import Flowchart.Proofs.Text.SourceLines
import Flowchart.Proofs.Source.Heads
import Flowchart.Proofs.Query.Keywords
import Flowchart.Proofs.Query.Placement
import Flowchart.Proofs.Query.Nesting
import Flowchart.Proofs.Query.Locality
import Flowchart.Proofs.Query.Blindness
import Flowchart.Proofs.Source.Cleanups
import Flowchart.Proofs.Highlight.Scrolling
import Flowchart.Proofs.Flattening
import Flowchart.Proofs.Highlight.Values
import Flowchart.Proofs.Source.CountedLoops
import Flowchart.Proofs.Source.Conditions
import Flowchart.Proofs.Trace.Ending
import Flowchart.Proofs.Trace.Written
import Flowchart.Proofs.Text.Chains
import Flowchart.Proofs.Query.SelectLists
import Flowchart.Proofs.Highlight.Announcements
import Flowchart.Proofs.Highlight.Assignments
import Flowchart.Proofs.Query.Statements
import Flowchart.Proofs.Trace.Fences
import Flowchart.Proofs.Drawing.Passing
import Flowchart.Proofs.Diagram.Directions
