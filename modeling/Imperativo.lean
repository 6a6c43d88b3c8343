import Imperativo.Main
import Imperativo.Proofs.Grammar.Acceptance
import Imperativo.Proofs.Grammar.Enclosure
import Imperativo.Proofs.Grammar.Insertion
import Imperativo.Proofs.Grammar.Shape
import Imperativo.Proofs.Source.Cutting
import Imperativo.Proofs.Source.Account
import Imperativo.Proofs.Source.Lines
import Imperativo.Proofs.Diagnostic.Merge
import Imperativo.Proofs.Source.Order
import Imperativo.Proofs.Grammar.Descent
import Imperativo.Proofs.Analysis.Order
import Imperativo.Proofs.Building.Expression
import Imperativo.Proofs.Building.Statement
import Imperativo.Proofs.Building.Program
import Imperativo.Proofs.Tree.PostOrder
import Imperativo.Proofs.Building.Promise
import Imperativo.Proofs.Source.Places
import Imperativo.Proofs.Source.Separators
import Imperativo.Proofs.Source.Layout
import Imperativo.Proofs.Tree.Move
import Imperativo.Proofs.Grammar.Move
import Imperativo.Proofs.Analysis.Layout
import Imperativo.Proofs.Building.Move
import Imperativo.Proofs.Grammar.Progress
import Imperativo.Proofs.Tree.Renderings
import Imperativo.Proofs.Source.Pulling
import Imperativo.Proofs.Number.Rounding
import Imperativo.Proofs.Source.Separated
import Imperativo.Proofs.Text.Reading
import Imperativo.Proofs.Tree.Digraph
import Imperativo.Proofs.Grammar.Kept
import Imperativo.Proofs.Grammar.Labels
import Imperativo.Proofs.Source.Values
import Imperativo.Proofs.Tree.Outline
import Imperativo.Proofs.Analysis.Outline
import Imperativo.Proofs.Analysis.Places
import Imperativo.Proofs.Viewer.Scrolling
import Imperativo.Proofs.Diagnostic.Recording
import Imperativo.Proofs.Diagnostic.Grouping
import Imperativo.Proofs.Viewer.Jumping
import Imperativo.Proofs.Grammar.Levels
import Imperativo.Proofs.Grammar.Standalone
import Imperativo.Proofs.Grammar.Climbing
import Imperativo.Proofs.Tree.Lookup
import Imperativo.Proofs.Tree.Rollback
import Imperativo.Proofs.Building.Likeness
import Imperativo.Proofs.Grammar.Resynchronization
import Imperativo.Proofs.Grammar.Starting
import Imperativo.Proofs.Grammar.Dangling
import Imperativo.Proofs.Analysis.Conditionals
import Imperativo.Proofs.Source.Casing
import Imperativo.Proofs.Source.NumberRuns
import Imperativo.Proofs.Number.Shortest
import Imperativo.Proofs.Number.Written
import Imperativo.Proofs.Analysis.Literals
import Imperativo.Proofs.Viewer.Highlighting
import Imperativo.Proofs.Viewer.Spans
import Imperativo.Proofs.Viewer.Tabs
import Imperativo.Proofs.Grammar.Stops
import Imperativo.Proofs.Grammar.Wording
import Imperativo.Proofs.Analysis.Messages
import Imperativo.Proofs.Report.Rows
import Imperativo.Proofs.Analysis.Reports
