import Shapewise.CommandLine.Run
import Shapewise.Main
import Shapewise.Proofs.Entries
import Shapewise.Proofs.Outcome
import Shapewise.Proofs.Shape.Proper
import Shapewise.Proofs.Shape.Merge
import Shapewise.Proofs.Selection.Picks
import Shapewise.Proofs.Selection.Valid
import Shapewise.Proofs.Entity.Graph
import Shapewise.Proofs.Entity.Rules
import Shapewise.Proofs.Entity.Registry
import Shapewise.Proofs.Entity.Reach
import Shapewise.Proofs.Entity.Construction
import Shapewise.Proofs.Entity.Closed
import Shapewise.Proofs.Schema.Closed
import Shapewise.Proofs.Selection.Fits
import Shapewise.Proofs.Selection.Contribution
import Shapewise.Proofs.Selection.Grouped
import Shapewise.Proofs.Selection.Clash
import Shapewise.Proofs.Schema.Selection
import Shapewise.Proofs.Selection.Arguments
import Shapewise.Proofs.Value.Same
import Shapewise.Proofs.Selection.Payloads
import Shapewise.Proofs.Selection.Rearranged
import Shapewise.Proofs.Text.Digits
import Shapewise.Proofs.Text.Escape
import Shapewise.Proofs.Selection.Tree
import Shapewise.Proofs.Selection.Spelling
import Shapewise.Proofs.Selection.Printed
import Shapewise.Proofs.Selection.ReadBack
import Shapewise.Proofs.Selection.Grammar
import Shapewise.Proofs.Selection.Recognition
import Shapewise.Proofs.Schema.Alias
import Shapewise.Proofs.Schema.Announced
import Shapewise.Proofs.Schema.Members
import Shapewise.Proofs.Schema.Resolved
import Shapewise.Proofs.Schema.Frozen
import Shapewise.Proofs.Schema.WellFormed
import Shapewise.Proofs.Schema.Reordered
import Shapewise.Proofs.Schema.Printed
import Shapewise.Proofs.Schema.ReadBack
import Shapewise.Proofs.Schema.Grammar
import Shapewise.Proofs.Schema.Unambiguous
import Shapewise.Proofs.Schema.Recognition
import Shapewise.Proofs.Schema.Described
import Shapewise.Proofs.Entity.Settled
import Shapewise.Proofs.Shape.Bracketing
import Shapewise.Proofs.Shape.Intersection
import Shapewise.Proofs.Shape.Swapped
import Shapewise.Proofs.Selection.Steps
import Shapewise.Proofs.Selection.Extended
import Shapewise.Proofs.Selection.Refused
import Shapewise.Proofs.Selection.Depth
import Shapewise.Proofs.Selection.Paths
import Shapewise.Proofs.Selection.Regular
import Shapewise.Proofs.Selection.Nesting
import Shapewise.Proofs.Selection.Written
import Shapewise.Proofs.Selection.TextLiteral
import Shapewise.Proofs.Text.Cut
import Shapewise.Proofs.Schema.Located
import Shapewise.Proofs.Selection.Unpacked
import Shapewise.Proofs.Schema.ChainEnds
import Shapewise.Proofs.Schema.Unplaced
import Shapewise.Proofs.Schema.ReadFaults
import Shapewise.Proofs.Selection.Located
import Shapewise.Proofs.Selection.ReadFaults
import Shapewise.Proofs.Selection.RepeatedArgument
import Shapewise.Proofs.SyntaxFaults
import Shapewise.Proofs.Text.Layout
import Shapewise.Proofs.Layout
import Shapewise.Proofs.Shape.PartByPart
import Shapewise.Proofs.Shape.Rendered
import Shapewise.Proofs.Page.Answers
import Shapewise.Proofs.CommandLine.Values
import Shapewise.Proofs.CommandLine.Ends
import Shapewise.Proofs.Selection.NamesAlone
