import Mull.Base.Related
import Mull.Parallelization.Executes
import Mull.Toolchain.Runner

/-! `MutantRunner`: a warm-up, a baseline and then the mutants, each in a process that has its identifier set. -/

namespace Mull.Runner
open Base Parallelization Toolchain

/-- The processes that a run of a tool starts; mutants by their position. -/
inductive Launch
  | gitDiff
  | sanityCheck
  | link
  | warmUp
  | baseline
  | mutant (i : Nat)
deriving DecidableEq

/-- What every process does with what it is started with. -/
abbrev Processes := Launch → Request → Process

/-- `mutant` is the position of the mutant. -/
structure MutationResult where
  result : ExecutionResult
  mutant : Nat
deriving DecidableEq

structure Configuration where
  timeout : Int32
  captureMutantOutput : Bool := true
  mutantExecutionWorkers : Nat
deriving DecidableEq

def mutantTimeout (baseline : ExecutionResult) : Int64 := baseline.runningTime * 10

def executeMutant (processes : Processes) (config : Configuration) (executable : Text)
    (baseline : ExecutionResult)
    (extraArgs : List Text) (pair : Mutant × Nat) : Except Exit MutationResult :=
  if pair.1.covered then
    (runProgram (processes (.mutant pair.2)) executable extraArgs [pair.1.identifier] (mutantTimeout baseline)
      config.captureMutantOutput).map fun result => ⟨result, pair.2⟩
  else .ok ⟨{ status := .notCovered }, pair.2⟩

def mutantExecutionTask (processes : Processes) (config : Configuration) (executable : Text)
    (baseline : ExecutionResult) (extraArgs : List Text) :
      Task (Mutant × Nat) (Except Exit MutationResult) where
  element := id
  outputs pair := [executeMutant processes config executable baseline extraArgs pair]

/-- `runMutants` can return the results; it does not return where a program cannot be started. -/
def RunMutants (processes : Processes) (config : Configuration) (executable : Text) (extraArgs : List Text)
    (mutants : List Mutant) (results : List MutationResult) : Prop :=
  ∃ warmUp baseline elements out,
    runProgram (processes .warmUp) executable extraArgs [] config.timeout.toInt64 config.captureMutantOutput =
      .ok warmUp ∧
    runProgram (processes .baseline) executable extraArgs [] config.timeout.toInt64
      config.captureMutantOutput =
      .ok baseline ∧
    Executes (mutantExecutionTask processes config executable baseline extraArgs)
      config.mutantExecutionWorkers
      mutants.zipIdx elements out ∧
    out = results.map .ok

section
variable (processes : Processes) (config : Configuration) (executable : Text) (extraArgs : List Text)

/-- The run without a mutant that the others are measured by. -/
def baselineRequest : Request := request executable extraArgs [] config.timeout.toInt64 none

def baselineResult : ExecutionResult :=
  judge config.captureMutantOutput (processes .baseline (baselineRequest config executable extraArgs))

def mutantRequest (mutant : Mutant) : Request :=
  request executable extraArgs [mutant.identifier]
    (mutantTimeout (baselineResult processes config executable extraArgs))
    none

def verdict (pair : Mutant × Nat) : MutationResult where
  result :=
    if pair.1.covered then judge config.captureMutantOutput
      (processes (.mutant pair.2) (mutantRequest processes config executable extraArgs pair.1))
    else { status := .notCovered }
  mutant := pair.2

/-- All programs that `runMutants` needs can be started. -/
structure Startable (mutants : List Mutant) : Prop where
  warmUp : Starts (processes .warmUp) (baselineRequest config executable extraArgs)
  baseline : Starts (processes .baseline) (baselineRequest config executable extraArgs)
  mutants : ∀ pair ∈ mutants.zipIdx, pair.1.covered = true →
    Starts (processes (.mutant pair.2)) (mutantRequest processes config executable extraArgs pair.1)

end

section
variable {processes : Processes} {config : Configuration} {executable : Text} {extraArgs : List Text}

theorem executeMutant_ok_iff {pair : Mutant × Nat} {result : MutationResult} :
    executeMutant processes config executable (baselineResult processes config executable extraArgs)
      extraArgs pair =
        .ok result ↔
      (pair.1.covered = true →
        Starts (processes (.mutant pair.2)) (mutantRequest processes config executable extraArgs pair.1)) ∧
      result = verdict processes config executable extraArgs pair := by
  unfold executeMutant verdict
  cases covered : pair.1.covered with
  | false =>
    simp only [Bool.false_eq_true, if_false, false_imp_iff, true_and, Except.ok.injEq]
    exact eq_comm
  | true =>
    simp only [if_true, true_imp_iff]
    constructor
    · intro ok
      cases ran : runProgram (processes (.mutant pair.2)) executable extraArgs [pair.1.identifier]
          (mutantTimeout (baselineResult processes config executable extraArgs))
            config.captureMutantOutput with
      | error exit =>
        rw [ran] at ok
        cases ok
      | ok value =>
        rw [ran] at ok
        obtain ⟨starts, rfl⟩ := runProgram_ok_iff.mp ran
        exact ⟨starts, (Except.ok.inj ok).symm⟩
    · intro started
      obtain ⟨starts, rfl⟩ := started
      rw [runProgram_ok_iff.mpr ⟨starts, rfl⟩]
      rfl

theorem map_ok_iff {ε α β : Type} {f : α → Except ε β} {xs : List α} {ys : List β} :
    xs.map f = ys.map .ok ↔ List.Forall₂ (fun x y => f x = .ok y) xs ys := by
  rw [← List.forall₂_eq_eq_eq, List.forall₂_map_left_iff, List.forall₂_map_right_iff]

/-- For every number of workers and every interleaving there is one result for each mutant, in the order of the
mutants, and it is what the mutant's own process says, or that the mutant is not covered. -/
theorem runMutants_iff {mutants : List Mutant} {results : List MutationResult}
    (positive : 1 ≤ config.mutantExecutionWorkers)
    (fits : CanSplit config.mutantExecutionWorkers mutants.length) :
    RunMutants processes config executable extraArgs mutants results ↔
      Startable processes config executable extraArgs mutants ∧
        results = mutants.zipIdx.map (verdict processes config executable extraArgs) := by
  have fits' : CanSplit config.mutantExecutionWorkers mutants.zipIdx.length := by
    rwa [List.length_zipIdx]
  have outputs : mutants.zipIdx.flatMap (mutantExecutionTask processes config executable
      (baselineResult processes config executable extraArgs) extraArgs).outputs = mutants.zipIdx.map
        (executeMutant processes config executable
          (baselineResult processes config executable extraArgs) extraArgs) :=
    List.map_eq_flatMap.symm
  have each : mutants.zipIdx.map (executeMutant processes config executable
      (baselineResult processes config executable extraArgs) extraArgs) = results.map .ok ↔
        (∀ pair ∈ mutants.zipIdx, pair.1.covered = true →
          Starts (processes (.mutant pair.2)) (mutantRequest processes config executable extraArgs pair.1)) ∧
        results = mutants.zipIdx.map (verdict processes config executable extraArgs) := by
    rw [map_ok_iff]
    simp only [executeMutant_ok_iff]
    exact forall₂_and_eq_map
  constructor
  · intro run
    obtain ⟨warmUp, baseline, elements, out, warm, base, executed, rfl⟩ := run
    obtain ⟨base_starts, rfl⟩ := runProgram_ok_iff.mp base
    obtain ⟨-, all⟩ := (executes_iff positive fits').mp executed
    obtain ⟨starts, rfl⟩ := each.mp (outputs.symm.trans all.symm)
    exact ⟨⟨(runProgram_ok_iff.mp warm).1, base_starts, starts⟩, rfl⟩
  · intro run
    obtain ⟨startable, same⟩ := run
    exact ⟨_, _, _, _, runProgram_ok_iff.mpr ⟨startable.warmUp, rfl⟩,
      runProgram_ok_iff.mpr ⟨startable.baseline, rfl⟩,
      (executes_iff positive fits').mpr ⟨rfl, rfl⟩, outputs.trans (each.mpr ⟨startable.mutants, same⟩)⟩

theorem runMutants_canSplit {mutants : List Mutant} {results : List MutationResult}
    (positive : 1 ≤ config.mutantExecutionWorkers)
    (run : RunMutants processes config executable extraArgs mutants results) :
    CanSplit config.mutantExecutionWorkers mutants.length := by
  by_contra unfit
  obtain ⟨_, _, _, _, -, -, executed, -⟩ := run
  refine not_executes positive ?_ executed
  rwa [List.length_zipIdx]

theorem runMutants_result {mutants : List Mutant} {results : List MutationResult}
    (positive : 1 ≤ config.mutantExecutionWorkers)
    (run : RunMutants processes config executable extraArgs mutants results) :
    results = mutants.zipIdx.map (verdict processes config executable extraArgs) :=
  ((runMutants_iff positive (runMutants_canSplit positive run)).mp run).2

end

end Mull.Runner
