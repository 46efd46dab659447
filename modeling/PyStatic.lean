import PyStatic.Settings.Load
import PyStatic.Symbol.Copy
import PyStatic.Proofs.Flow.Simulation
import PyStatic.Proofs.Types.PathTypes
import PyStatic.Proofs.Types.LoopLimit
import PyStatic.Proofs.Types.EveryExpression
import PyStatic.Proofs.Flow.Kills
import PyStatic.Proofs.Flow.VisitLimit
import PyStatic.Proofs.Binding.SharedSymbols
import PyStatic.Proofs.Binding.Nonlocals
import PyStatic.Proofs.Builtin.Summaries
import PyStatic.Proofs.Symbol.Ambiguity
import PyStatic.Proofs.Types.CallTypes
import PyStatic.Proofs.Binding.RelativeImports
import PyStatic.Proofs.Binding.UnionHints
import PyStatic.Proofs.Project.IndexedNames
import PyStatic.Proofs.Concrete.OutermostFaults
import PyStatic.Proofs.Flow.ElementRanges
import PyStatic.Proofs.Syntax.InterpolatedNames
import PyStatic.Proofs.Syntax.VisitOrder
import PyStatic.Proofs.Flow.Loops
import PyStatic.Proofs.Project.Exporting
import PyStatic.Proofs.Text.Lines
import PyStatic.Proofs.Symbol.FreshCopies
