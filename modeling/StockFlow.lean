import StockFlow.Source.Snippet
import StockFlow.Text.Blank
import StockFlow.Text.Digit
import StockFlow.Text.Identifier
import StockFlow.Decimal.Notation
import StockFlow.Decimal.Reading
import StockFlow.Token.Scan
import StockFlow.Grammar.Outline
import StockFlow.Tree.File
import StockFlow.Tree.Walk
import StockFlow.Model.Kind
import StockFlow.Model.Timespec
import StockFlow.Graph.Order
import StockFlow.Model.Analysis
import StockFlow.Failure
import StockFlow.Equation.Table
import StockFlow.Equation.Notation
import StockFlow.Equation.Synthesis
import StockFlow.Engine.Sim
import StockFlow.Main
import StockFlow.Proofs.Answer
import StockFlow.Proofs.Tree.Walk
import StockFlow.Proofs.Course
import StockFlow.Proofs.Decimal.Rounding
import StockFlow.Proofs.Double.Order
import StockFlow.Proofs.Double.Packed
import StockFlow.Proofs.Double.Unpacked
import StockFlow.Proofs.Engine.Board
import StockFlow.Proofs.Engine.Clock
import StockFlow.Proofs.Engine.Evaluation
import StockFlow.Proofs.Engine.History
import StockFlow.Proofs.Engine.Life
import StockFlow.Proofs.Engine.Run
import StockFlow.Proofs.Engine.Step
import StockFlow.Proofs.Equation.Compiled
import StockFlow.Proofs.Equation.Contribution
import StockFlow.Proofs.Equation.Evaluation
import StockFlow.Proofs.Equation.InOrder
import StockFlow.Proofs.Equation.Lowering
import StockFlow.Proofs.Equation.Meaning
import StockFlow.Proofs.Equation.StockBody
import StockFlow.Proofs.Graph.Order
import StockFlow.Proofs.Model.Meaning
import StockFlow.Proofs.Model.Names
import StockFlow.Proofs.Model.Timespec
import StockFlow.Proofs.Project
import StockFlow.Proofs.Simulation
import StockFlow.Proofs.Termination
import StockFlow.Proofs.Engine.Balance
import StockFlow.Proofs.Steering
import StockFlow.Proofs.Engine.Renumbered
import StockFlow.Proofs.Session.Operation
import StockFlow.Proofs.Session.Independence
import StockFlow.Proofs.Equation.Rearranged
import StockFlow.Proofs.Engine.Report
import StockFlow.Proofs.Engine.Mirror
import StockFlow.Proofs.Rearrangement
import StockFlow.Proofs.Decimal.Numeral
import StockFlow.Proofs.Grammar.Words
import StockFlow.Proofs.Grammar.Expression
import StockFlow.Proofs.Grammar.Outline
import StockFlow.Proofs.Reading
import StockFlow.Proofs.Engine.Turn
import StockFlow.Proofs.Engine.Desk
import StockFlow.Proofs.Engine.Lockstep
import StockFlow.Proofs.Engine.Influence
import StockFlow.Proofs.Influence
import StockFlow.Proofs.Override
import StockFlow.Proofs.Grammar.Shape
import StockFlow.Proofs.Grammar.Printed
import StockFlow.Proofs.Grammar.Reread
import StockFlow.Proofs.Token.Rescan
import StockFlow.Proofs.Grammar.Written
import StockFlow.Proofs.Printing
import StockFlow.Proofs.Engine.Stages
import StockFlow.Proofs.Double.Half
import StockFlow.Proofs.Stages
import StockFlow.Proofs.Model.Merging
import StockFlow.Proofs.Model.Inheritance
import StockFlow.Proofs.Inheritance
import StockFlow.Proofs.Equation.Share
import StockFlow.Proofs.Synthesis
import StockFlow.Proofs.Model.Shape
import StockFlow.Proofs.Equation.Malformed
import StockFlow.Proofs.Forms
import StockFlow.Proofs.Engine.Progress
import StockFlow.Proofs.Engine.Closing
import StockFlow.Proofs.Closing
import StockFlow.Proofs.Declarations
import StockFlow.Proofs.Grammar.Locality
import StockFlow.Proofs.Recovery
import StockFlow.Proofs.Decimal.Written
import StockFlow.Proofs.Equation.Printed
import StockFlow.Proofs.Equations
import StockFlow.Proofs.Graph.Circle
import StockFlow.Proofs.Graph.Stability
import StockFlow.Proofs.Ordering
import StockFlow.Proofs.Double.Quotient
import StockFlow.Proofs.Engine.SavePoints
import StockFlow.Proofs.Recording
import StockFlow.Proofs.Engine.Exact
import StockFlow.Proofs.Equation.Table
import StockFlow.Proofs.Double.Comparison
import StockFlow.Proofs.Lookup
import StockFlow.Proofs.Interpolation
import StockFlow.Proofs.Model.References
import StockFlow.Proofs.Resolution
import StockFlow.Proofs.Grammar.Passage
import StockFlow.Proofs.Resumption
import StockFlow.Proofs.Text.Bytes
import StockFlow.Proofs.Decimal.Fixed
import StockFlow.Proofs.Report
import StockFlow.Proofs.Token.Tiling
import StockFlow.Proofs.Terminators
import StockFlow.Proofs.Grammar.Faults
import StockFlow.Proofs.Positions
import StockFlow.Proofs.Token.Slice
import StockFlow.Proofs.Grammar.Extent
import StockFlow.Proofs.Locations
import StockFlow.Proofs.Equation.Access
import StockFlow.Proofs.Engine.Footprint
import StockFlow.Proofs.Model.Entries
import StockFlow.Proofs.Entries
import StockFlow.Proofs.Grammar.Rounds
import StockFlow.Proofs.Traversal
import StockFlow.Proofs.Source.Line
import StockFlow.Proofs.Notices
