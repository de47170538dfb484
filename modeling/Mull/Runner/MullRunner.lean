import Mull.Reporters.Result
import Mull.Runner.MutantExtractor
import Mull.Runner.MutantRunner

/-! `mull-runner`: the mutants of an executable are extracted and run. -/

namespace Mull.Runner
open Base Reporters

/-- What `main` reads of the command line. -/
structure RunnerOptions where
  inputFile : Text
  testProgram : Text := []
  runnerArgs : List Text := []
  configuration : Configuration

/-- With no test program the input file is run. -/
def RunnerOptions.program (options : RunnerOptions) (inputFile : Text) : Text :=
  if options.testProgram = [] then inputFile else options.testProgram

/-- `main` can hand this result to the reporters; `load` reads the files. -/
def MullRunner (fileSystem : FileSystem) (load : Text → Executable) (processes : Processes)
    (options : RunnerOptions) (result : Result) : Prop :=
  ∃ inputFile, validateInputFile fileSystem options.inputFile = .ok inputFile ∧
    extractMutants (load inputFile) = .ok result.mutants ∧
    RunMutants processes options.configuration (options.program inputFile) options.runnerArgs result.mutants
      result.mutationResults

end Mull.Runner
