import Mull.Runner.MutantRunner
import Mull.Parallelization.ReporterStops
import Mull.Runner.Agreement
import Mull.Mutators.Duality
import Mull.Mutators.ForgetsHistory
import Mull.Mutators.JoinEntry
import Mull.Mutators.ReplacesOperator
import Mull.Driver.Canonical
import Mull.Driver.CoverageSelection
import Mull.Driver.RespectsFilters
import Mull.Preparation.Isolated
import Mull.Preparation.Meaning
import Mull.Preparation.PrepareMutations
import Mull.Frontend.RecordNames
import Mull.JunkDetection.PathSpelling
import Mull.JunkDetection.RecordedFlags
import Mull.JunkDetection.EnclosingDecl
import Mull.JunkDetection.Located
import Mull.JunkDetection.Answers
import Mull.JunkDetection.InstructionRange
import Mull.Filters.SpelledPaths
import Mull.Reporters.Caret
import Mull.Reporters.RealLines
import Mull.Frontend.NeverFails
import Mull.Frontend.SwitchesCorrectly
import Mull.Frontend.RecordLiteral
import Mull.Driver.MullCxx
import Mull.Driver.RunnerAgrees
import Mull.Driver.Reports
import Mull.Driver.Verdicts
import Mull.Frontend.TestedMutants
