import Mull.Driver.Verdicts
import Mull.Runner.Agreement
import Mull.Runner.MullRunner

/-! `mull-runner` on an executable that `mull-cxx` has made: the same mutants with the same verdicts, if the
processes behave the same. -/

namespace Mull.Driver
open Base LLVM Parallelization Preparation Toolchain Runner Reporters MutationPoint

def executions (mutants : List Mutant) (mutationResults : List MutationResult) :
    List (Mutant.View × ExecutionResult) :=
  (mutants.zip mutationResults).map fun pair => (pair.1.view, pair.2.result)

def startedAs (r : Request) (program : Text) : Request := { r with program := program }

section
variable {answer : Request → Process} {config : Runner.Configuration} {executable : Text}
  {extraArgs : List Text} {processes : Processes}

/-- What the process of a mutant gives depends on what the mutant says of itself. -/
def executionOf (answer : Request → Process) (config : Runner.Configuration) (extraArgs : List Text)
    (view : Mutant.View) : ExecutionResult :=
  if view.covered then judge config.captureMutantOutput (answer (request [] extraArgs [view.identifier]
    (mutantTimeout (baselineResult (fun _ => answer) config [] extraArgs)) none))
  else { status := .notCovered }

theorem executions_verdicts
    (same : ∀ launch r, processes launch (startedAs r executable) = answer (startedAs r []))
    (mutants : List Mutant) :
    executions mutants (mutants.zipIdx.map (verdict processes config executable extraArgs)) =
      (mutants.map Mutant.view).map fun view => (view, executionOf answer config extraArgs view) := by
  have baseline : baselineResult processes config executable extraArgs =
      baselineResult (fun _ => answer) config [] extraArgs :=
    congrArg (judge config.captureMutantOutput) (same .baseline (baselineRequest config executable extraArgs))
  have each (mutant : Mutant) (i : Nat) :
      (verdict processes config executable extraArgs (mutant, i)).result =
        executionOf answer config extraArgs mutant.view := by
    have asked := same (.mutant i) (mutantRequest processes config executable extraArgs mutant)
    unfold verdict executionOf
    refine if_congr Iff.rfl (congrArg (judge config.captureMutantOutput) (asked.trans ?_)) rfl
    unfold mutantRequest
    rw [baseline]
    rfl
  unfold executions
  rw [List.map_map]
  refine List.ext_getElem? fun i => ?_
  rw [List.getElem?_map, List.getElem?_map]
  cases here : mutants[i]? with
  | none =>
    rw [List.getElem?_eq_none]
    · rfl
    · rw [List.length_zip]
      exact (Nat.min_le_left _ _).trans (List.getElem?_eq_none_iff.mp here)
  | some mutant =>
    have zipped : (mutants.zip (mutants.zipIdx.map (verdict processes config executable extraArgs)))[i]? =
        some (mutant, verdict processes config executable extraArgs (mutant, i)) := by
      refine List.getElem?_zip_eq_some.mpr ⟨here, ?_⟩
      rw [List.getElem?_map, List.getElem?_zipIdx, here, Option.map_some, Option.map_some, Nat.zero_add]
    rw [zipped]
    exact congrArg (fun result => some (mutant.view, result)) (each mutant i)

end

section
variable {around : Surroundings} {config : RunConfiguration} {program : List Module} {outcome : Outcome}

/-- Where no two points share an identifier and the paths can be recorded, the runner reports on the executable
that the driver has linked what the driver reports: the same mutants, each with the same execution result. -/
theorem runner_same_verdicts (workers : 1 ≤ config.workers)
    (mutantWorkers : 1 ≤ config.runner.mutantExecutionWorkers)
    (normal : config.dryRunEnabled = false) (tested : config.mutateOnly = false)
    (run : Run around config program outcome)
    (identifiers : ((filteredPoints around config program).map getUserIdentifier).Nodup)
    (plain : PlainPaths (filteredPoints around config program))
    (paths : ∀ point ∈ filteredPoints around config program, point.sourceLocation.filePath ≠ [])
    {bitcodes : List Nat} (distinct : bitcodes.Nodup)
    (within : ∀ point ∈ filteredPoints around config program, point.bitcode ∈ bitcodes)
    {fileSystem : FileSystem} {load : Text → Executable} {processes : Processes} {options : RunnerOptions}
    {result : Result} (runner : MullRunner fileSystem load processes options result)
    (runnerWorkers : 1 ≤ options.configuration.mutantExecutionWorkers) (args : options.runnerArgs = [])
    (timeout : options.configuration.timeout = config.runner.timeout)
    (capture : options.configuration.captureMutantOutput = config.runner.captureMutantOutput)
    {inputFile : Text} (input : validateInputFile fileSystem options.inputFile = .ok inputFile)
    (carried : Carries (linkedRecords bitcodes (filteredPoints around config program)) (load inputFile))
    (alike : ∀ launch launch' r, around.processes launch (startedAs r (outputFileName around config)) =
      processes launch' (startedAs r (options.program inputFile))) :
    (executions result.mutants result.mutationResults).Perm
      (executions outcome.mutants outcome.mutationResults) := by
  obtain ⟨mutants, results⟩ := run_report workers mutantWorkers run
  unfold reportedResults at results
  rw [if_neg (by rw [normal]; exact Bool.false_ne_true),
    if_neg (by rw [tested]; exact Bool.false_ne_true)] at results
  obtain ⟨inputFile', input', extracted, ran⟩ := runner
  obtain rfl := Except.ok.inj (input.symm.trans input')
  have ran_results := runMutants_result runnerWorkers ran
  have linked := linkedPoints_perm distinct within
  have read : extractMutants (load inputFile) =
      .ok ((linkedPoints bitcodes (filteredPoints around config program)).map recordedMutant) := by
    rw [linked_extract plain distinct within carried, linkedRecords_eq]
    exact linked_decoded (fun point mem => paths point (linked.mem_iff.mp mem))
      (fun point mem => plain point (linked.mem_iff.mp mem))
  have own : result.mutants = (linkedPoints bitcodes (filteredPoints around config program)).map
    recordedMutant :=
    Except.ok.inj (extracted.symm.trans read)
  have views : (result.mutants.map Mutant.view).Perm
      ((reportedMutants around config program).map Mutant.view) := by
    rw [own, List.map_map]
    exact (linked.map view).trans (deduplicate_distinct (.refl _) identifiers).symm
  let answer : Request → Process := fun r => around.processes .warmUp
    (startedAs r (outputFileName around config))
  have driver (launch : Launch) (r : Request) :
      around.processes launch (startedAs r (outputFileName around config)) = answer (startedAs r []) :=
    (alike launch .warmUp r).trans (alike .warmUp .warmUp r).symm
  have tool (launch : Launch) (r : Request) :
      processes launch (startedAs r (options.program inputFile)) = answer (startedAs r []) :=
    (alike .warmUp launch r).symm
  have settings : executionOf answer options.configuration options.runnerArgs =
    executionOf answer config.runner [] := by
    funext view
    unfold executionOf baselineResult baselineRequest
    rw [args, timeout, capture]
  rw [ran_results, executions_verdicts tool, settings, results, mutants, executions_verdicts driver]
  exact views.map _

end

def runnerOptions : RunnerOptions where
  inputFile := "a.out".toList
  configuration := (incrementConfiguration 2).runner

def temporaryFiles : FileSystem := ⟨fun _ => true, fun path => some ("/tmp/".toList ++ path)⟩

theorem runner_same_verdicts_increment : ∃ outcome load result,
    Run sampleSurroundings (incrementConfiguration 2) incrementProgram outcome ∧
    MullRunner temporaryFiles load sampleSurroundings.processes runnerOptions result ∧
    (executions result.mutants result.mutationResults).Perm
      (executions outcome.mutants outcome.mutationResults) := by
  have run := run_increment .zeros "/tmp/".toList one_le_two
  obtain ⟨executable, carried⟩ := carried_exists (linkedRecords [2, 0, 1] incrementPoints)
  have within : ∀ point ∈ incrementPoints, point.bitcode ∈ [2, 0, 1] := by decide
  have read : extractMutants executable = .ok ((linkedPoints [2, 0, 1] incrementPoints).map recordedMutant) := by
    rw [linked_extract (by decide +kernel) (by decide) within carried, linkedRecords_eq]
    exact linked_decoded (by decide +kernel) (by decide +kernel)
  have ran : RunMutants sampleSurroundings.processes runnerOptions.configuration "/tmp/a.out".toList []
      ((linkedPoints [2, 0, 1] incrementPoints).map recordedMutant) _ :=
    (runMutants_iff one_le_two (canSplit_of_lt (by decide))).mpr ⟨⟨rfl, rfl, fun _ _ _ => rfl⟩, rfl⟩
  have runner : MullRunner temporaryFiles (fun _ => executable) sampleSurroundings.processes runnerOptions
      ⟨(linkedPoints [2, 0, 1] incrementPoints).map recordedMutant, _⟩ := ⟨_, rfl, read, ran⟩
  have carried' : Carries (linkedRecords [2, 0, 1] incrementPoints)
    ((fun _ : Text => executable) "/tmp/a.out".toList) :=
    carried
  exact ⟨_, _, _, run, runner, runner_same_verdicts one_le_two one_le_two rfl rfl run (by decide +kernel)
    (by decide +kernel)
    (by decide +kernel) (by decide) within runner one_le_two rfl rfl rfl rfl carried' fun _ _ _ => rfl⟩

end Mull.Driver
