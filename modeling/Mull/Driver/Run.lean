import Mull.Driver.Canonical
import Mull.Driver.FilterMutations
import Mull.Driver.RespectsFilters
import Mull.Preparation.Linked
import Mull.Runner.MutantRunner

/-! `Driver::run` from the program to the report: points are found, filtered and prepared, mutants deduplicated, the
program compiled and linked and the mutants run. -/

namespace Mull.Driver
open Base LLVM Parallelization Preparation Toolchain Runner

/-- What `run` reads besides what `findMutationPoints` does. -/
structure RunConfiguration extends Configuration where
  mutationFilters : List MutationFilter := []
  runner : Runner.Configuration
  dryRunEnabled : Bool := false
  captureTestOutput : Bool := true
  skipSanityCheckRun : Bool := false
  strictMode : Bool := false
  keepObjectFiles : Bool := false
  keepExecutable : Bool := false
  mutateOnly : Bool := false
  executable : Text
  outputFile : Text := []
  linker : Text := []
  linkerFlags : List Text := []
  linkerTimeout : UInt32 := 30000

/-- What is not in the program: where mutators apply and what they do, LLVM's names, its compiler, the processes,
whether the coverage can be read if it is asked for, and the name of a temporary file. -/
structure Surroundings where
  canMutate : IRMutation → Place → Bool
  irm : LowLevelMutations
  naming : Naming
  compileBitcode : Nat → Module → Except Exit Text
  processes : Processes
  coverageLoads : Bool := true
  temporaryFile : Text

/-- What `run` returns, and the files it copied and removed. -/
structure Outcome where
  mutants : List Mutant
  mutationResults : List MutationResult
  copied : Option (Text × Text) := none
  removed : List Text := []

def dryRunMutantExecutionTask : Task (Mutant × Nat) MutationResult where
  element := id
  outputs pair := [⟨{ status := .dryRun }, pair.2⟩]

def originalCompilationTask (compileBitcode : Nat → Module → Except Exit Text) :
    Task (Module × Nat) (Except Exit Text) where
  element := id
  outputs pair := [compileBitcode pair.2 pair.1]

section
variable (around : Surroundings) (config : RunConfiguration)

def outputFileName : Text := if config.outputFile = [] then around.temporaryFile else config.outputFile

def linkArguments (objects : List Text) : List Text :=
  config.linkerFlags ++ objects ++ ["-o".toList, outputFileName around config]

/-- `linkObjectFiles` returns if the linker runs and succeeds. -/
def Links (objects : List Text) : Prop :=
  ∃ result, runProgram (around.processes .link) config.linker (linkArguments around config objects) []
    (.ofInt config.linkerTimeout.toNat) true = .ok result ∧ result.status = .passed

/-- A failed sanity check is a warning, which ends the program in strict mode. -/
def SanityCheck : Prop :=
  config.skipSanityCheckRun = true ∨ ∃ result, runProgram (around.processes .sanityCheck)
    config.executable [] []
    config.runner.timeout.toInt64 config.captureTestOutput = .ok result ∧
      (config.strictMode = true → result.status = .passed)

/-- So is coverage that cannot be read, and the request for what is not covered where there is no coverage. -/
def CoverageCheck : Prop :=
  config.strictMode = true → around.coverageLoads = true ∧
    (config.coverage = none → config.includeNotCovered = false)

/-- `normalRunMutations` can return the results and has removed the files. -/
def NormalRunMutations (modules : List Module) (mutants : List Mutant) (results : List MutationResult)
    (removed : List Text) : Prop :=
  ∃ moved out objectFiles,
    Executes (originalCompilationTask around.compileBitcode) config.workers modules.zipIdx moved out ∧
    out = objectFiles.map .ok ∧ Links around config objectFiles ∧
    (if config.mutateOnly then results = [] ∧ removed = (if config.keepObjectFiles then [] else objectFiles)
    else RunMutants around.processes config.runner (outputFileName around config) [] mutants results ∧
      removed = (if config.keepObjectFiles then [] else objectFiles) ++
        if config.keepExecutable then [] else [outputFileName around config])

def RunMutations (modules : List Module) (mutants : List Mutant) (outcome : Outcome) : Prop :=
  outcome.mutants = mutants ∧
    if mutants = [] then
      outcome.mutationResults = [] ∧ outcome.removed = [] ∧
        outcome.copied = if config.keepExecutable ∧ config.outputFile ≠ [] then
          some (config.executable, config.outputFile) else none
    else outcome.copied = none ∧
      if config.dryRunEnabled then outcome.removed = [] ∧ ∃ moved,
        Executes dryRunMutantExecutionTask config.workers mutants.zipIdx moved outcome.mutationResults
      else NormalRunMutations around config modules mutants outcome.mutationResults outcome.removed

/-- What `run` does with the points that the filters keep. In a dry run the program is left as it is. -/
def RunFiltered (program : List Module) (filtered : List MutationPoint) (outcome : Outcome) : Prop :=
  ∃ bitcodes modules iteration,
    (if config.dryRunEnabled then modules = program
    else AddMutations filtered program bitcodes ∧
      PrepareMutations around.irm around.naming config.workers filtered.length bitcodes modules) ∧
    iteration.Perm (mapping filtered) ∧
    RunMutations around config modules (deduplicate iteration) outcome

/-- `run` can return with this outcome. -/
def Run (program : List Module) (outcome : Outcome) : Prop :=
  ∃ points filtered,
    SanityCheck around config ∧ CoverageCheck around config ∧
    FindMutationPoints around.canMutate config.toConfiguration program points ∧
    FilterMutations config.workers config.mutationFilters points filtered ∧
    RunFiltered around config program filtered outcome

end

/-! ### What is reported -/

section
variable (around : Surroundings) (config : RunConfiguration) (program : List Module)

def filteredPoints : List MutationPoint :=
  keptPoints config.mutationFilters (foundPoints around.canMutate config.toConfiguration program)

def reportedMutants : List Mutant := deduplicate (mapping (filteredPoints around config program))

def reportedResults : List MutationResult :=
  if config.dryRunEnabled then
    (reportedMutants around config program).zipIdx.map fun pair => ⟨{ status := .dryRun }, pair.2⟩
  else if config.mutateOnly then []
  else (reportedMutants around config program).zipIdx.map
    (verdict around.processes config.runner (outputFileName around config) [])

def Compiled (finals : List Module) : Prop :=
  if config.dryRunEnabled then finals = program
  else ∃ bitcodes, AddMutations (filteredPoints around config program) program bitcodes ∧
    PrepareMutations around.irm around.naming config.workers
      (filteredPoints around config program).length bitcodes finals

/-- What a run needs of the tools once it has its mutants, and what it leaves of the files. -/
def Completes (finals : List Module) (outcome : Outcome) : Prop :=
  if reportedMutants around config program = [] then
    outcome.removed = [] ∧ outcome.copied = if config.keepExecutable ∧ config.outputFile ≠ [] then
      some (config.executable, config.outputFile) else none
  else outcome.copied = none ∧
    if config.dryRunEnabled then outcome.removed = []
    else ∃ objectFiles,
      List.Forall₂ (fun pair object => around.compileBitcode pair.2 pair.1 = .ok object)
        finals.zipIdx objectFiles ∧
      Links around config objectFiles ∧
      if config.mutateOnly then outcome.removed = if config.keepObjectFiles then [] else objectFiles
      else Startable around.processes config.runner (outputFileName around config) []
          (reportedMutants around config program) ∧
        outcome.removed = (if config.keepObjectFiles then [] else objectFiles) ++
          if config.keepExecutable then [] else [outputFileName around config]

def MutantsFit : Prop :=
  if config.dryRunEnabled then CanSplit config.workers (reportedMutants around config program).length
  else config.mutateOnly = true ∨
    CanSplit config.runner.mutantExecutionWorkers (reportedMutants around config program).length

structure Fits : Prop where
  functions : CanSplit config.workers
    (getFunctionsUnderTest config.coverage config.includeNotCovered program).length
  points : config.mutationFilters = [] ∨
    CanSplit config.workers (foundPoints around.canMutate config.toConfiguration program).length
  mutants : MutantsFit around config program

end

theorem findMutationPoints_result {canMutate : IRMutation → Place → Bool} {config : Configuration}
    {program : List Module} {points : List MutationPoint} (positive : 1 ≤ config.workers)
    (found : FindMutationPoints canMutate config program points) :
      points = foundPoints canMutate config program := by
  by_cases fits : CanSplit config.workers
      (getFunctionsUnderTest config.coverage config.includeNotCovered program).length
  · exact (findMutationPoints_iff positive fits).mp found
  · exact absurd found (not_findMutationPoints positive fits points)

/-- Whatever order the hash map is iterated in, the mutants are the same to the last field. -/
theorem deduplicate_iteration {points : List MutationPoint} {iteration : List (Text × List MutationPoint)}
    (iterated : iteration.Perm (mapping points)) : deduplicate iteration = deduplicate (mapping points) := by
  have keyed (mutant : Mutant) : Mutant.key (id mutant) = mutant.key := rfl
  have canonical := sortBy_canonical mutantComparator_iff keyed ((iterated.filterMap _).map id)
    (reported_keys iterated)
  simp only [List.map_id] at canonical
  exact canonical

section
variable {around : Surroundings} {config : RunConfiguration} {program : List Module} {outcome : Outcome}

theorem run_report (workers : 1 ≤ config.workers) (mutantWorkers : 1 ≤ config.runner.mutantExecutionWorkers)
    (run : Run around config program outcome) : outcome.mutants = reportedMutants around config program ∧
      outcome.mutationResults = reportedResults around config program := by
  obtain ⟨points, filtered, -, -, found, filtering, bitcodes, modules, iteration, -, iterated, same, ran⟩ :=
    run
  obtain rfl := findMutationPoints_result workers found
  obtain rfl := filterMutations_result workers filtering
  have mutants : outcome.mutants = reportedMutants around config program := by
    rw [same, deduplicate_iteration iterated]
    rfl
  refine ⟨mutants, ?_⟩
  rw [← same, mutants] at ran
  unfold reportedResults
  by_cases none : reportedMutants around config program = []
  · rw [if_pos none] at ran
    rw [ran.1, none]
    simp
  · rw [if_neg none] at ran
    obtain ⟨-, ran⟩ := ran
    by_cases dry : config.dryRunEnabled = true
    · rw [if_pos dry] at ran ⊢
      obtain ⟨-, moved, executed⟩ := ran
      rw [(executes_result workers executed).2]
      exact List.map_eq_flatMap.symm
    · rw [if_neg dry] at ran ⊢
      obtain ⟨_, _, _, -, -, -, ran⟩ := ran
      by_cases only : config.mutateOnly = true
      · rw [if_pos only] at ran ⊢
        exact ran.1
      · rw [if_neg only] at ran ⊢
        exact runMutants_result mutantWorkers ran.1

theorem compilation_iff {compileBitcode : Nat → Module → Except Exit Text} {workers : Nat}
    {modules : List Module}
    {objectFiles : List Text} (positive : 1 ≤ workers) (fits : CanSplit workers modules.length) :
    (∃ moved out, Executes (originalCompilationTask compileBitcode) workers modules.zipIdx moved out ∧
      out = objectFiles.map .ok) ↔
        List.Forall₂ (fun pair object => compileBitcode pair.2 pair.1 = .ok object) modules.zipIdx
          objectFiles := by
  have outputs : modules.zipIdx.flatMap (originalCompilationTask compileBitcode).outputs =
      modules.zipIdx.map fun pair => compileBitcode pair.2 pair.1 := List.map_eq_flatMap.symm
  have fits' : CanSplit workers modules.zipIdx.length := by rwa [List.length_zipIdx]
  rw [← map_ok_iff]
  constructor
  · intro compiled
    obtain ⟨moved, out, executed, rfl⟩ := compiled
    exact outputs.symm.trans ((executes_iff positive fits').mp executed).2.symm
  · intro compiled
    exact ⟨_, _, (executes_iff positive fits').mpr ⟨rfl, rfl⟩, outputs.trans compiled⟩

theorem mutantsFit_none (none : reportedMutants around config program = []) :
    MutantsFit around config program := by
  have nothing (tasks : Nat) : CanSplit tasks (reportedMutants around config program).length := by
    rw [none]
    exact canSplit_of_lt (by decide)
  unfold MutantsFit
  split
  · exact nothing _
  · exact .inr (nothing _)

theorem runMutations_iff {finals : List Module} (workers : 1 ≤ config.workers)
    (mutantWorkers : 1 ≤ config.runner.mutantExecutionWorkers)
    (modules : config.dryRunEnabled = false → CanSplit config.workers finals.length) :
    RunMutations around config finals (reportedMutants around config program) outcome ↔
      MutantsFit around config program ∧ outcome.mutants = reportedMutants around config program ∧
        outcome.mutationResults = reportedResults around config program ∧
          Completes around config program finals outcome := by
  rw [and_left_comm]
  unfold RunMutations Completes reportedResults
  refine and_congr_right fun _ => ?_
  by_cases none : reportedMutants around config program = []
  · simp [none, mutantsFit_none none]
  rw [if_neg none, if_neg none]
  unfold MutantsFit
  by_cases dry : config.dryRunEnabled = true
  · rw [if_pos dry, if_pos dry, if_pos dry, if_pos dry]
    have outputs : (reportedMutants around config program).zipIdx.flatMap dryRunMutantExecutionTask.outputs =
        (reportedMutants around config program).zipIdx.map fun pair => ⟨{ status := .dryRun }, pair.2⟩ :=
      List.map_eq_flatMap.symm
    constructor
    · intro ran
      obtain ⟨copied, removed, moved, executed⟩ := ran
      have fits : CanSplit config.workers (reportedMutants around config program).zipIdx.length := by
        by_contra unfit
        exact not_executes workers unfit executed
      rw [List.length_zipIdx] at fits
      exact ⟨fits, (executes_result workers executed).2.trans outputs, copied, removed⟩
    · intro ran
      obtain ⟨fits, results, copied, removed⟩ := ran
      refine ⟨copied, removed, _, (executes_iff workers ?_).mpr ⟨rfl, results.trans outputs.symm⟩⟩
      rwa [List.length_zipIdx]
  rw [if_neg dry, if_neg dry, if_neg dry, if_neg dry]
  unfold NormalRunMutations
  simp only [← compilation_iff workers (modules (Bool.eq_false_iff.mpr dry))]
  by_cases only : config.mutateOnly = true
  · simp only [if_pos only]
    constructor
    · intro ran
      obtain ⟨copied, moved, out, objectFiles, executed, compiled, links, results, removed⟩ := ran
      exact ⟨.inl only, results, copied, objectFiles, ⟨moved, out, executed, compiled⟩, links, removed⟩
    · intro ran
      obtain ⟨-, results, copied, objectFiles, ⟨moved, out, executed, compiled⟩, links, removed⟩ := ran
      exact ⟨copied, moved, out, objectFiles, executed, compiled, links, results, removed⟩
  · simp only [if_neg only]
    constructor
    · intro ran
      obtain ⟨copied, moved, out, objectFiles, executed, compiled, links, ran, removed⟩ := ran
      have fits := runMutants_canSplit mutantWorkers ran
      obtain ⟨startable, results⟩ := (runMutants_iff mutantWorkers fits).mp ran
      exact ⟨.inr fits, results, copied, objectFiles, ⟨moved, out, executed, compiled⟩, links,
        startable, removed⟩
    · intro ran
      obtain ⟨fits, results, copied, objectFiles, ⟨moved, out, executed, compiled⟩, links,
        startable, removed⟩ := ran
      exact ⟨copied, moved, out, objectFiles, executed, compiled, links,
        (runMutants_iff mutantWorkers (fits.resolve_left only)).mpr ⟨startable, results⟩, removed⟩

theorem foundPoints_known {canMutate : IRMutation → Place → Bool} {config : Configuration}
    {point : MutationPoint}
    (mem : point ∈ foundPoints canMutate config program) : ∃ module, program[point.bitcode]? = some module ∧
      point.originalFunction ∈ module.functions.map Function.ref := by
  obtain ⟨f, kept, mutator, enabled, found, mem_found, rfl⟩ := mem_foundPoints.mp mem
  obtain ⟨mem_bitcode, mem_function, fresh⟩ := getFunctionsUnderTest_mem (mem_keptFunctions.mp kept).1
  have here := mem_bitcodes.mp mem_bitcode
  have known {place : Place} (inside : place ∈ f.function.instructions) :
      place.function.ref ∈ f.bitcode.module.functions.map Function.ref := by
    rw [instruction_function inside]
    exact List.mem_map_of_mem mem_function
  rcases Mutator.mem_getMutations mem_found with
    ⟨irMutator, place, selected, rfl⟩ | ⟨logical, rfl, mem_logical⟩
  · exact ⟨_, here, known ((FunctionUnderTest.mem_selectInstructions fresh).mp selected).1⟩
  · obtain ⟨place, inside, -, rfl⟩ := Mutator.mem_logicalMutations.mp mem_logical
    exact ⟨_, here, known inside⟩

theorem filteredPoints_known {point : MutationPoint} (mem : point ∈ filteredPoints around config program) :
    ∃ module, program[point.bitcode]? = some module ∧
      point.originalFunction ∈ module.functions.map Function.ref := by
  obtain ⟨found, listed, same⟩ := mem_keptPoints mem
  obtain ⟨module, here, known⟩ := foundPoints_known listed
  rw [show point = { found with endLocation := point.endLocation } from same]
  exact ⟨module, here, known⟩

theorem Compiled.length {finals : List Module} (workers : 1 ≤ config.workers)
    (compiled : Compiled around config program finals) : finals.length = program.length := by
  unfold Compiled at compiled
  split at compiled
  · rw [compiled]
  · obtain ⟨bitcodes, added, prepared⟩ := compiled
    refine (prepared.modulewise workers added fun point mem => ?_).1
    obtain ⟨module, here, -⟩ := filteredPoints_known mem
    exact (List.getElem?_eq_some_iff.mp here).1

theorem Compiled.canSplit {finals : List Module} (workers : 1 ≤ config.workers)
    (compiled : Compiled around config program finals) (normal : config.dryRunEnabled = false) :
    CanSplit config.workers finals.length := by
  rw [compiled.length workers]
  unfold Compiled at compiled
  rw [if_neg (by rw [normal]; exact Bool.false_ne_true)] at compiled
  obtain ⟨bitcodes, added, prepared⟩ := compiled
  exact prepared.canSplit workers added

theorem run_returns (workers : 1 ≤ config.workers) (mutantWorkers : 1 ≤ config.runner.mutantExecutionWorkers)
    (fits : Fits around config program) (checked : SanityCheck around config)
    (covered : CoverageCheck around config) (same : outcome.mutants = reportedMutants around config program)
    (results : outcome.mutationResults = reportedResults around config program) {finals : List Module}
    (compiled : Compiled around config program finals)
    (completes : Completes around config program finals outcome) :
    Run around config program outcome := by
  have found : FindMutationPoints around.canMutate config.toConfiguration program _ :=
    (findMutationPoints_iff workers fits.functions).mpr rfl
  have filtering : FilterMutations config.workers config.mutationFilters _
    (filteredPoints around config program) :=
    filterMutations_returns workers fits.points
  have ran := (runMutations_iff workers mutantWorkers (compiled.canSplit workers)).mpr
    ⟨fits.mutants, same, results, completes⟩
  unfold Compiled at compiled
  by_cases dry : config.dryRunEnabled = true
  · rw [if_pos dry] at compiled
    refine ⟨_, _, checked, covered, found, filtering, [], finals, _, ?_, .refl _, ran⟩
    rwa [if_pos dry]
  · rw [if_neg dry] at compiled
    obtain ⟨bitcodes, prepared⟩ := compiled
    refine ⟨_, _, checked, covered, found, filtering, bitcodes, finals, _, ?_, .refl _, ran⟩
    rwa [if_neg dry]

/-- A run returns exactly where the executors can split what they are given and every tool does its work, and
then it reports every mutant with what its own process says and leaves no other files than it is asked to keep.
-/
theorem run_iff (workers : 1 ≤ config.workers) (mutantWorkers : 1 ≤ config.runner.mutantExecutionWorkers) :
    Run around config program outcome ↔ Fits around config program ∧
      SanityCheck around config ∧ CoverageCheck around config ∧
        outcome.mutants = reportedMutants around config program ∧
          outcome.mutationResults = reportedResults around config program ∧
            ∃ finals, Compiled around config program finals ∧
            Completes around config program finals outcome := by
  constructor
  · intro run
    obtain ⟨points, filtered, checked, covered, found, filtering, bitcodes, modules, iteration, compiled,
      iterated, ran⟩ :=
      run
    have functions : CanSplit config.workers
        (getFunctionsUnderTest config.coverage config.includeNotCovered program).length := by
      by_contra unfit
      exact not_findMutationPoints workers unfit _ found
    obtain rfl := findMutationPoints_result workers found
    have points := filterMutations_canSplit workers filtering
    obtain rfl := filterMutations_result workers filtering
    have compiled' : Compiled around config program modules := by
      unfold Compiled
      split at compiled
      · rename_i dry
        rwa [if_pos dry]
      · rename_i normal
        rw [if_neg normal]
        exact ⟨bitcodes, compiled⟩
    rw [deduplicate_iteration iterated] at ran
    obtain ⟨mutants, same, results, completes⟩ :=
      (runMutations_iff workers mutantWorkers (compiled'.canSplit workers)).mp ran
    exact ⟨⟨functions, points, mutants⟩, checked, covered, same, results, modules, compiled', completes⟩
  · intro run
    obtain ⟨fits, checked, covered, same, results, finals, compiled, completes⟩ := run
    exact run_returns workers mutantWorkers fits checked covered same results compiled completes

/-- Neither the numbers of workers nor how they interleave, nor the order of any map, nor the names of clones
and object files show in the report. -/
theorem run_independent {naming : Naming} {compileBitcode : Nat → Module → Except Exit Text}
    {workers mutantWorkers : Nat} {outcome' : Outcome} (positive : 1 ≤ config.workers ∧ 1 ≤ workers)
    (mutantPositive : 1 ≤ config.runner.mutantExecutionWorkers ∧ 1 ≤ mutantWorkers)
    (run : Run around config program outcome)
    (run' : Run { around with naming := naming, compileBitcode := compileBitcode }
      { config with workers := workers, runner := { config.runner with mutantExecutionWorkers := mutantWorkers } }
      program outcome') :
    outcome.mutants = outcome'.mutants ∧ outcome.mutationResults = outcome'.mutationResults := by
  obtain ⟨mutants, results⟩ := run_report positive.1 mutantPositive.1 run
  obtain ⟨mutants', results'⟩ := run_report positive.2 mutantPositive.2 run'
  exact ⟨mutants.trans mutants'.symm, results.trans results'.symm⟩

end

/-- `int name(int count)` on a line of a file, with `{ return count + 1; }` on the next. -/
def increment (ref : FunctionRef) (name unit filename : Text) (line : Int32) : Function where
  ref := ref
  name := name
  type := ⟨[.int 32], false, .int 32⟩
  debugLoc := some ⟨"/src".toList, filename, line, 0, some ("/src".toList, unit)⟩
  blocks := [{
    ref := 0
    body := [⟨1, .binary 13 (.argument 0) (.constantInt 32 1),
      some ⟨"/src".toList, filename, line + 1, 16, some ("/src".toList, unit)⟩⟩]
    terminator := .ret (some (.register 1)) }]
  distinct := List.nodup_singleton _

def countFunction : Function := increment 1 "count".toList "count.c".toList "count.c".toList 1

def countModule : Module where
  functions := [countFunction,
    increment 2 "hidden".toList "count.c".toList "count.c".toList 4,
    increment 3 "check".toList "count.c".toList "gtest.h".toList 1]
  distinct := by decide
  named := by decide

def idleModule : Module where
  functions := [increment 1 "idle".toList "idle.c".toList "idle.c".toList 1]
  distinct := by decide
  named := by decide

def tallyModule : Module where
  functions := [increment 1 "tally".toList "tally.c".toList "tally.c".toList 1,
    increment 2 "old".toList "tally.c".toList "tally.c".toList 4]
  distinct := by decide
  named := by decide

def incrementProgram : List Module := [countModule, idleModule, tallyModule]

/-- The tests call all functions but `idle`. -/
def incrementRecords : List FunctionRecord :=
  [⟨"count".toList, 3⟩, ⟨"hidden".toList, 1⟩, ⟨"check".toList, 1⟩, ⟨"idle".toList, 0⟩,
    ⟨"tally.c:tally".toList, 2⟩, ⟨"old".toList, 1⟩]

def incrementPoint (bitcode : Nat) (filePath : Text) (covered : Bool) : MutationPoint where
  mutator := .addToSub
  irMutator := some .addToSub
  address := ⟨0, 0, 0⟩
  bitcode := bitcode
  originalFunction := 1
  mutatedFunction := none
  sourceLocation := ⟨"/src".toList, filePath, "/src".toList, filePath, 2, 16⟩
  endLocation := ⟨"/src".toList, filePath, "/src".toList, filePath, 2, 17⟩
  covered := covered

def incrementPoints : List MutationPoint :=
  [incrementPoint 0 "/src/count.c".toList true, incrementPoint 1 "/src/idle.c".toList false,
    incrementPoint 2 "/src/tally.c".toList true]

def incrementMutants : List Mutant :=
  incrementPoints.filterMap fun point => reportMutant point.getUserIdentifier [point]

/-- `old` has not changed. -/
def changedLines : Text := ("+++ b/count.c\n@@ -1 +2 @@\n@@ -4 +5 @@\n+++ b/gtest.h\n@@ -0,0 +1,2 @@\n" ++
  "+++ b/idle.c\n@@ -1 +2 @@\n+++ b/tally.c\n@@ -1 +2 @@\n").toList

/-- The tests pass unless the mutant of `count` is switched on. -/
def incrementSurroundings (naming : Naming) (objects : Text) : Surroundings where
  canMutate
    | .addToSub, ⟨_, _, _, _, .plain ⟨_, .binary 13 _ _, _⟩⟩ => true
    | _, _ => false
  irm := .simple
  naming := naming
  compileBitcode position _ := .ok (objects ++ Nat.toDigits 10 position)
  processes _ r := {
    status := if r.extraEnvironment.any fun v => v.1 = "cxx_add_to_sub:/src/count.c:2:16".toList then 1 else 0
    stdout := if r.program = "git".toList then changedLines else [] }
  temporaryFile := "/tmp/a.out".toList

abbrev sampleSurroundings : Surroundings := incrementSurroundings .zeros "/tmp/".toList

/-- A header, the changed lines and what is junk are left out by functions for each. -/
def incrementConfiguration (workers : Nat) : RunConfiguration where
  coverage := some incrementRecords
  includeNotCovered := true
  workers := workers
  filters := {
    functionFilters := [fun f => f.name = "check".toList]
    instructionFilters := [fun place => place.function.name = "old".toList] }
  mutators := [.addToSub]
  mutationFilters := [{
    shouldSkip point := point.originalFunction ≠ 1
    endLocation point := some (point.sourceLocation.line, 17) }]
  runner := { timeout := 3000, mutantExecutionWorkers := workers }
  strictMode := true
  executable := "/src/tests".toList
  linker := "clang".toList

section
variable {naming : Naming} {objects : Text} {config : RunConfiguration}

theorem reportedMutants_increment
    (points : filteredPoints (incrementSurroundings naming objects) config incrementProgram =
      incrementPoints) :
    reportedMutants (incrementSurroundings naming objects) config incrementProgram = incrementMutants := by
  have pairs : ((mapping incrementPoints).filterMap fun pair => reportMutant pair.1 pair.2) =
    incrementMutants := by
    decide +kernel
  unfold reportedMutants deduplicate
  rw [points, pairs]
  exact List.mergeSort_of_pairwise (by decide +kernel)

variable (naming objects config) in
def incrementOutcome : Outcome where
  mutants := reportedMutants (incrementSurroundings naming objects) config incrementProgram
  mutationResults := reportedResults (incrementSurroundings naming objects) config incrementProgram
  removed :=
    (if config.keepObjectFiles then [] else (List.range 3).map fun b => objects ++ Nat.toDigits 10 b) ++
    if config.keepExecutable then [] else [outputFileName (incrementSurroundings naming objects) config]

variable (points : filteredPoints (incrementSurroundings naming objects) config incrementProgram =
  incrementPoints) (workers : 1 ≤ config.workers) (mutantWorkers : 1 ≤ config.runner.mutantExecutionWorkers)
  (normal : config.dryRunEnabled = false) (tested : config.mutateOnly = false)
include points workers normal

theorem compiled_increment :
    ∃ finals, Compiled (incrementSurroundings naming objects) config incrementProgram finals := by
  have known : KnownIn (filteredPoints (incrementSurroundings naming objects) config incrementProgram)
      incrementProgram := fun _ mem => filteredPoints_known mem
  obtain ⟨bitcodes, finals, added, prepared⟩ := @exists_prepared .simple naming _ _ _ workers
    (canSplit_of_lt (show incrementProgram.length < 2 ^ 30 by decide)) known (by decide)
    (by rw [points]; decide +kernel)
  refine ⟨finals, ?_⟩
  unfold Compiled
  rw [if_neg (by rw [normal]; exact Bool.false_ne_true)]
  exact ⟨bitcodes, added, prepared⟩

include tested

theorem completes_increment {finals : List Module}
    (compiled : Compiled (incrementSurroundings naming objects) config incrementProgram finals) :
    Completes (incrementSurroundings naming objects) config incrementProgram finals
      (incrementOutcome naming objects config) := by
  have some_mutant : reportedMutants (incrementSurroundings naming objects) config incrementProgram ≠ [] := by
    rw [reportedMutants_increment points]
    decide
  have length : finals.length = 3 := compiled.length workers
  have objectFiles : List.Forall₂ (fun (pair : Module × Nat) object =>
      (incrementSurroundings naming objects).compileBitcode pair.2 pair.1 = .ok object) finals.zipIdx
        ((List.range 3).map fun b => objects ++ Nat.toDigits 10 b) := by
    have numbers : finals.zipIdx.map Prod.snd = List.range 3 := by
      rw [List.zipIdx_map_snd, length, List.range_eq_range']
    rw [← numbers, List.map_map, List.forall₂_map_right_iff, List.forall₂_same]
    exact fun _ _ => rfl
  unfold Completes
  rw [if_neg some_mutant, if_neg (by rw [normal]; exact Bool.false_ne_true)]
  refine ⟨rfl, _, objectFiles, ⟨_, rfl, rfl⟩, ?_⟩
  rw [if_neg (by rw [tested]; exact Bool.false_ne_true)]
  exact ⟨⟨rfl, rfl, fun _ _ _ => rfl⟩, rfl⟩

omit workers
theorem reportedResults_increment :
    (reportedResults (incrementSurroundings naming objects) config incrementProgram).map
    (fun result => result.result.status) = [.failed, .notCovered, .passed] := by
  unfold reportedResults
  rw [if_neg (by rw [normal]; exact Bool.false_ne_true), if_neg (by rw [tested]; exact Bool.false_ne_true),
    reportedMutants_increment points]
  rfl

end

theorem fits_increment {naming : Naming} {objects : Text} {config : RunConfiguration}
    (points : filteredPoints (incrementSurroundings naming objects) config incrementProgram = incrementPoints)
    (normal : config.dryRunEnabled = false) (functions : CanSplit config.workers
      (getFunctionsUnderTest config.coverage config.includeNotCovered incrementProgram).length)
    (found : CanSplit config.workers (foundPoints (incrementSurroundings naming objects).canMutate
      config.toConfiguration incrementProgram).length) :
    Fits (incrementSurroundings naming objects) config incrementProgram := by
  refine ⟨functions, .inr found, ?_⟩
  unfold MutantsFit
  rw [if_neg (by rw [normal]; exact Bool.false_ne_true), reportedMutants_increment points]
  exact .inr (canSplit_of_lt (show incrementMutants.length < 2 ^ 30 by decide))

theorem tools_increment (naming : Naming) (objects : Text) {workers : Nat} (positive : 1 ≤ workers) :
    Fits (incrementSurroundings naming objects) (incrementConfiguration workers) incrementProgram ∧
      SanityCheck (incrementSurroundings naming objects) (incrementConfiguration workers) ∧
        CoverageCheck (incrementSurroundings naming objects) (incrementConfiguration workers) ∧
          ∃ finals, Compiled (incrementSurroundings naming objects) (incrementConfiguration workers)
            incrementProgram finals ∧
            Completes (incrementSurroundings naming objects) (incrementConfiguration workers)
              incrementProgram finals
              (incrementOutcome naming objects (incrementConfiguration workers)) := by
  have fits : Fits (incrementSurroundings naming objects) (incrementConfiguration workers) incrementProgram :=
    fits_increment rfl rfl (canSplit_of_lt (show 6 < 2 ^ 30 by decide))
      (canSplit_of_lt (show 4 < 2 ^ 30 by decide))
  obtain ⟨finals, compiled⟩ := @compiled_increment naming objects (incrementConfiguration workers)
    rfl positive rfl
  have completes := completes_increment rfl positive rfl rfl compiled
  exact ⟨fits, .inr ⟨_, rfl, fun _ => rfl⟩, fun _ => ⟨rfl, nofun⟩, finals, compiled, completes⟩

theorem run_increment (naming : Naming) (objects : Text) {workers : Nat} (positive : 1 ≤ workers) :
    Run (incrementSurroundings naming objects) (incrementConfiguration workers) incrementProgram
      (incrementOutcome naming objects (incrementConfiguration workers)) := by
  obtain ⟨fits, checked, covered, finals, compiled, completes⟩ := tools_increment naming objects positive
  exact run_returns positive positive fits checked covered rfl rfl compiled completes

theorem run_iff_increment : Run sampleSurroundings (incrementConfiguration 2) incrementProgram
      (incrementOutcome .zeros "/tmp/".toList (incrementConfiguration 2)) ∧
    (reportedResults sampleSurroundings (incrementConfiguration 2) incrementProgram).map
      (fun result => result.result.status) = [.failed, .notCovered, .passed] := by
  obtain ⟨fits, checked, covered, tools⟩ := tools_increment .zeros "/tmp/".toList one_le_two
  exact ⟨(run_iff one_le_two one_le_two).mpr ⟨fits, checked, covered, rfl, rfl, tools⟩,
    reportedResults_increment rfl rfl rfl⟩

/-- Other names, other object files and another number of workers. -/
theorem run_independent_workers : ∃ outcome outcome',
    Run sampleSurroundings (incrementConfiguration 1) incrementProgram outcome ∧
    Run (incrementSurroundings (.repeating '1' rfl) "/var/".toList) (incrementConfiguration 2)
      incrementProgram outcome' ∧
    outcome.removed ≠ outcome'.removed ∧ outcome.mutants = outcome'.mutants ∧
      outcome.mutationResults = outcome'.mutationResults := by
  have run := run_increment .zeros "/tmp/".toList (le_refl 1)
  have run' := run_increment (.repeating '1' rfl) "/var/".toList one_le_two
  exact ⟨_, _, run, run', by decide, run_independent ⟨le_rfl, one_le_two⟩ ⟨le_rfl, one_le_two⟩ run run'⟩

end Mull.Driver
