import AsmCompare.Main
import AsmCompare.Proofs.Comparison.Reach
import AsmCompare.Proofs.Comparison.Visit
import AsmCompare.Proofs.Edit.Table
import AsmCompare.Proofs.Comparison.DeepEqual
import AsmCompare.Proofs.Comparison.FileRun
import AsmCompare.Proofs.Comparison.SharedCache
import AsmCompare.Proofs.Body.CanonicalNames
import AsmCompare.Proofs.Listing.Entries
import AsmCompare.Proofs.Listing.Renamed
import AsmCompare.Proofs.Statement.Agreement
import AsmCompare.Proofs.Comparison.Churn
import AsmCompare.Proofs.Comparison.JumpTargets
import AsmCompare.Proofs.Edit.Shortest
import AsmCompare.Proofs.Edit.Replay
import AsmCompare.Proofs.Comparison.Swap
import AsmCompare.Proofs.Body.Relabeling
import AsmCompare.Proofs.Comparison.Equivalence
import AsmCompare.Proofs.Comparison.Itself
import AsmCompare.Proofs.Comparison.ChangeLines
import AsmCompare.Proofs.Token.Language
import AsmCompare.Proofs.Token.Lexemes
import AsmCompare.Proofs.Token.Printed
import AsmCompare.Proofs.Source.Kept
import AsmCompare.Proofs.Source.Settled
import AsmCompare.Proofs.Listing.Bookmarks
import AsmCompare.Proofs.Listing.Resolution
import AsmCompare.Proofs.CallGraph.Distance
import AsmCompare.Proofs.Report.Copied
import AsmCompare.Proofs.Comparison.Recursion
import AsmCompare.Proofs.Comparison.Turns
import AsmCompare.Proofs.Edit.InPlace
import AsmCompare.Proofs.Comparison.Calls
import AsmCompare.Proofs.Edit.Hunks
import AsmCompare.Proofs.Body.NormalForm
import AsmCompare.Proofs.Listing.ObjectRanges
import AsmCompare.Proofs.CallGraph.Dot
import AsmCompare.Proofs.Report.SymbolTable
import AsmCompare.Proofs.Statement.Labels
import AsmCompare.Proofs.Token.Compact
import AsmCompare.Proofs.Statement.Printed
import AsmCompare.Proofs.Report.ChainLines
import AsmCompare.Proofs.Text.Positional
import AsmCompare.Proofs.Statement.CommonSizes
