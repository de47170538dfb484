import Mull.Driver.Run
import Mull.Preparation.Linked

/-! What a verdict means: the process of a mutant runs the prepared program, and comes back with the status of
the program that has the mutant's mutations made in place. -/

namespace Mull.Driver
open Base LLVM Preparation Toolchain Runner

/-- What executables run on: the semantics of modules under an environment, what the environment says, the
function that is started and with what, and the status that its value stands for. `returned` are the processes
that end because this function returns. -/
structure Machine (δ σ : Type) [DecidableEq δ] where
  semantics : List (Text × Text) → Nat → Semantics δ σ
  lookup : List (Text × Text) → Text → Datum δ
  looksUp : ∀ environment b, LooksUp (semantics environment b) (lookup environment)
  extended : ∀ environment name, lookup environment name ≠ .null ↔
    name ∈ environment.map Prod.fst ∨ lookup [] name ≠ .null
  symbols : Symbols
  entry : Text
  start : List Text → List (Datum δ) × σ
  exitStatus : Option (Datum δ) → Int32
  returned : Process → Bool

section
variable {δ σ : Type} [DecidableEq δ] (machine : Machine δ σ)

/-- The program can come back with this status from what it is asked to do. -/
def Machine.Exits (original program : List Module) (r : Request) (status : Int32) : Prop :=
  ∃ depth value m', Linked (machine.semantics r.extraEnvironment) machine.symbols
    (publicIn original) program depth
    machine.entry (machine.start r.arguments).1 (machine.start r.arguments).2 value m' ∧
    machine.exitStatus value = status

/-- The process is one of an executable that is linked from these modules. -/
def Machine.Runs (original finals : List Module) (process : Request → Process) (r : Request) : Prop :=
  machine.returned (process r) = true → (process r).timedOut = false →
    machine.Exits original finals r (process r).status

def mutantProgram (around : Surroundings) (config : RunConfiguration) (program : List Module)
    (identifier : Text) : List Module :=
  mutatedProgram around.irm (filteredPoints around config program) (fun other => other = identifier) program

def Machine.Says (original program : List Module) (process : Request → Process) (r : Request)
    (result : ExecutionResult) : Prop :=
  machine.returned (process r) = true → (process r).timedOut = false →
    result.status = .passed ∧ machine.Exits original program r 0 ∨
      result.status = .failed ∧ ∃ status, status ≠ 0 ∧ machine.Exits original program r status

end

theorem selectedBody_congr {irm : LowLevelMutations} {points : List MutationPoint}
    {isSet isSet' : Text → Bool}
    (same : ∀ point ∈ points, isSet point.getUserIdentifier = isSet' point.getUserIdentifier) (f : Function) :
    selectedBody irm points isSet f = selectedBody irm points isSet' f := by
  unfold selectedBody
  dsimp only
  congr 3
  refine List.filter_congr fun point mem => ?_
  exact same point (List.mem_of_mem_filter (List.mem_of_mem_filter mem))

theorem mutateWith_congr {irm : LowLevelMutations} {points : List MutationPoint} {isSet isSet' : Text → Bool}
    (same : ∀ point ∈ points, isSet point.getUserIdentifier = isSet' point.getUserIdentifier)
    (module : Module) :
    mutateWith irm points isSet module = mutateWith irm points isSet' module := by
  unfold mutateWith
  simp only [selectedBody_congr same]

theorem mutatedProgram_congr {irm : LowLevelMutations} {points : List MutationPoint}
    {isSet isSet' : Text → Bool}
    (same : ∀ point ∈ points, isSet point.getUserIdentifier = isSet' point.getUserIdentifier)
    (program : List Module) :
    mutatedProgram irm points isSet program = mutatedProgram irm points isSet' program := by
  unfold mutatedProgram
  refine congrArg (fun f => List.mapIdx f program) (funext fun b => funext fun module => ?_)
  exact mutateWith_congr (fun point mem => same point (List.mem_of_mem_filter mem)) module

theorem RunnableProgram.congr {irm : LowLevelMutations} {points : List MutationPoint}
    {isSet isSet' : Text → Bool} {symbols : Symbols} {program : List Module}
    (same : ∀ point ∈ points, isSet point.getUserIdentifier = isSet' point.getUserIdentifier)
    (runnable : RunnableProgram irm points isSet symbols program) :
      RunnableProgram irm points isSet' symbols program := by
  refine ⟨runnable.free, fun b module here => ?_, runnable.outside, runnable.resolved⟩
  have own : ∀ point ∈ pointsIn points b, isSet point.getUserIdentifier = isSet' point.getUserIdentifier :=
    fun point mem => same point (List.mem_of_mem_filter mem)
  obtain ⟨closed, fixed, body, getenv, declared⟩ := runnable.runnable b module here
  refine ⟨?_, fixed, fun f mem covered => ?_, getenv, declared⟩
  · rw [← mutateWith_congr own]
    exact closed
  · rw [← selectedBody_congr own]
    exact body f mem covered

section
variable {δ σ : Type} [DecidableEq δ] {machine : Machine δ σ} {around : Surroundings}
  {config : RunConfiguration} {program finals : List Module} {outcome : Outcome}

theorem exits_mutant (workers : 1 ≤ config.workers) (normal : config.dryRunEnabled = false)
    (compiled : Compiled around config program finals)
    (unset : ∀ point ∈ filteredPoints around config program,
      machine.lookup [] point.getUserIdentifier = .null)
    {identifier : Text}
    (runnable : RunnableProgram around.irm (filteredPoints around config program)
      (fun other => other = identifier)
      machine.symbols program) {r : Request} (set : r.extraEnvironment.map Prod.fst = [identifier])
        (status : Int32) :
    machine.Exits program finals r status ↔ machine.Exits program
      (mutantProgram around config program identifier) r status := by
  unfold Compiled at compiled
  rw [if_neg (by rw [normal]; exact Bool.false_ne_true)] at compiled
  obtain ⟨bitcodes, added, prepared⟩ := compiled
  have same : ∀ point ∈ filteredPoints around config program,
      (fun other => decide (other = identifier)) point.getUserIdentifier =
        (fun other => decide (machine.lookup r.extraEnvironment other ≠ .null)) point.getUserIdentifier := by
    intro point mem
    refine decide_eq_decide.mpr ?_
    rw [machine.extended, unset point mem, set, List.mem_singleton]
    simp
  have behaviour := linked_prepared workers added (fun _ mem => filteredPoints_known mem) prepared
    (machine.looksUp r.extraEnvironment) (RunnableProgram.congr same runnable)
  have programs : mutatedProgram around.irm (filteredPoints around config program)
    (fun other => other = identifier)
      program = mutatedProgram around.irm (filteredPoints around config program)
        (fun other => machine.lookup r.extraEnvironment other ≠ .null) program :=
          mutatedProgram_congr same program
  rw [← programs] at behaviour
  unfold Machine.Exits mutantProgram
  simp only [behaviour]

/-- In a run that tests its mutants, every mutant that is covered is said to survive or to be killed as its own
program comes back with 0 or not, and the others are said not to be covered. -/
theorem verdicts_faithful (workers : 1 ≤ config.workers)
    (mutantWorkers : 1 ≤ config.runner.mutantExecutionWorkers)
    (normal : config.dryRunEnabled = false) (tested : config.mutateOnly = false)
    (run : Run around config program outcome) (compiled : Compiled around config program finals)
    (unset : ∀ point ∈ filteredPoints around config program,
      machine.lookup [] point.getUserIdentifier = .null)
    (runnable : ∀ m ∈ outcome.mutants, RunnableProgram around.irm (filteredPoints around config program)
      (fun other => other = m.identifier) machine.symbols program)
    (runs : ∀ i (m : Mutant), outcome.mutants[i]? = some m → m.covered = true →
      machine.Runs program finals (around.processes (.mutant i))
        (mutantRequest around.processes config.runner (outputFileName around config) [] m)) :
    outcome.mutationResults.length = outcome.mutants.length ∧ ∀ i (m : Mutant), outcome.mutants[i]? = some m →
      ∃ result : ExecutionResult, outcome.mutationResults[i]? = some ⟨result, i⟩ ∧
        if m.covered then machine.Says program (mutantProgram around config program m.identifier)
        (around.processes (.mutant i))
          (mutantRequest around.processes config.runner (outputFileName around config) [] m) result
        else result.status = .notCovered := by
  obtain ⟨mutants, results⟩ := run_report workers mutantWorkers run
  unfold reportedResults at results
  rw [if_neg (by rw [normal]; exact Bool.false_ne_true),
    if_neg (by rw [tested]; exact Bool.false_ne_true), ← mutants]
    at results
  rw [results]
  refine ⟨by rw [List.length_map, List.length_zipIdx], fun i m here => ?_⟩
  have at_i : outcome.mutants.zipIdx[i]? = some (m, i) := by
    rw [List.getElem?_zipIdx, here, Option.map_some, Nat.zero_add]
  refine ⟨(verdict around.processes config.runner (outputFileName around config) [] (m, i)).result, ?_, ?_⟩
  · rw [List.getElem?_map, at_i]
    rfl
  unfold verdict
  cases covered : m.covered with
  | false => rfl
  | true =>
    intro returned finished
    have exits :=
      (exits_mutant workers normal compiled unset (runnable m (List.mem_of_getElem? here)) rfl _).mp
      (runs i m here covered returned finished)
    simp only [if_true]
    unfold judge
    dsimp only
    rw [finished, if_neg Bool.false_ne_true]
    by_cases zero : (around.processes (.mutant i)
        (mutantRequest around.processes config.runner (outputFileName around config) [] m)).status = 0
    · rw [if_pos zero]
      rw [zero] at exits
      exact .inl ⟨rfl, exits⟩
    · rw [if_neg zero]
      exact .inr ⟨rfl, _, zero, exits⟩

end

/-- A test that calls `count(1)` and wants 2. -/
def countMachine : Machine Int Unit where
  semantics environment _ := arithmetic fun name =>
    if name ∈ environment.map Prod.fst then .bool true else .null
  lookup environment name := if name ∈ environment.map Prod.fst then .bool true else .null
  looksUp environment _ := arithmetic_looksUp _
  extended environment name := by simp
  symbols := definedSymbols incrementProgram
  entry := "count".toList
  start _ := ([.data 1], ())
  exitStatus value := if value = some (.data 2) then 0 else 1
  returned _ := true

theorem runnable_increment (isSet : Text → Bool) :
    RunnableProgram .simple incrementPoints isSet (definedSymbols incrementProgram) incrementProgram :=
  runnable_namesNone (by decide) (by decide +kernel) (by decide) isSet

theorem exits_count {identifier : Text} {result : Int} (computes : computed
      (selectedBody .simple (pointsIn incrementPoints 0) (fun other => other = identifier)
        countFunction).blocks 1 = some result) (r : Request) :
    countMachine.Exits incrementProgram (mutantProgram sampleSurroundings
      (incrementConfiguration 2) incrementProgram identifier) r (if result = 2 then 0 else 1) := by
  have plain :
    ¬ Contained (selectedBody .simple (pointsIn incrementPoints 0) (fun other => other = identifier)
      countFunction).blocks := by
    rcases selectedBody_cases .simple (pointsIn incrementPoints 0) (fun other => other = identifier)
      countFunction with same | ⟨point, inside, mutated⟩
    · rw [same]
      decide
    · obtain rfl := List.mem_singleton.mp inside
      rw [← Option.some.inj mutated]
      decide
  refine ⟨1, some (.data result), (), ⟨0, 1, _, rfl, rfl, ?_⟩, ?_⟩
  · exact arithmetic_computes _ _ _ _
      (f := countFunction.withBody (selectedBody .simple (pointsIn incrementPoints 0)
      (fun other => other = identifier) countFunction)) rfl plain rfl computes
  unfold countMachine
  dsimp only
  split <;> split <;> simp_all

theorem verdicts_faithful_increment : ∃ outcome, Run sampleSurroundings
      (incrementConfiguration 2) incrementProgram outcome ∧
    outcome.mutationResults.map (fun result => result.result.status) = [.failed, .notCovered, .passed] ∧
    outcome.mutationResults.length = outcome.mutants.length ∧ ∀ i (m : Mutant), outcome.mutants[i]? = some m →
      ∃ result : ExecutionResult, outcome.mutationResults[i]? = some ⟨result, i⟩ ∧
        if m.covered then countMachine.Says incrementProgram
          (mutantProgram sampleSurroundings (incrementConfiguration 2) incrementProgram m.identifier)
          (sampleSurroundings.processes (.mutant i))
          (mutantRequest sampleSurroundings.processes (incrementConfiguration 2).runner
            (outputFileName sampleSurroundings (incrementConfiguration 2)) [] m) result
        else result.status = .notCovered := by
  have run := run_increment .zeros "/tmp/".toList one_le_two
  obtain ⟨finals, compiled⟩ := @compiled_increment .zeros "/tmp/".toList (incrementConfiguration 2)
    rfl one_le_two rfl
  have unset : ∀ point ∈ filteredPoints sampleSurroundings (incrementConfiguration 2)
      incrementProgram, countMachine.lookup [] point.getUserIdentifier = .null := fun _ _ => rfl
  have statuses := @reportedResults_increment .zeros "/tmp/".toList (incrementConfiguration 2) rfl rfl rfl
  refine ⟨_, run, statuses, verdicts_faithful one_le_two one_le_two rfl rfl run compiled unset
    (fun m _ => runnable_increment _) ?_⟩
  intro i m here covered _ _
  refine (exits_mutant one_le_two rfl compiled unset (runnable_increment _) rfl _).mpr ?_
  have mutants := @reportedMutants_increment .zeros "/tmp/".toList (incrementConfiguration 2) rfl
  have mem : m ∈ incrementMutants := mutants ▸ List.mem_of_getElem? here
  rcases List.mem_cons.mp mem with rfl | mem
  · exact exits_count (show _ = some 0 by decide +kernel) _
  rcases List.mem_cons.mp mem with rfl | mem
  · cases covered
  · obtain rfl := List.mem_singleton.mp mem
    exact exits_count (show _ = some 2 by decide +kernel) _

end Mull.Driver
