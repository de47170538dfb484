import Mull.Driver.FunctionsUnderTest
import Mull.Mutators.Mutations
import Mull.Parallelization.Executes

/-! `Driver::findMutationPoints`: functions are filtered, instructions selected and mutators applied, each by a
task executor. -/

namespace Mull.Driver
open LLVM Parallelization

structure Filters where
  functionFilters : List FunctionFilter
  instructionFilters : List InstructionFilter

/-- What `findMutationPoints` reads besides the program. -/
structure Configuration where
  coverage : Option (List FunctionRecord) := none
  includeNotCovered : Bool := false
  workers : Nat
  filters : Filters
  mutators : List Mutator

def functionFilterTask (filter : FunctionFilter) : Task FunctionUnderTest FunctionUnderTest where
  element := id
  outputs f := if filter f.function then [] else [f]

def instructionSelectionTask (filters : List InstructionFilter) : Task FunctionUnderTest Unit where
  element := FunctionUnderTest.selectInstructions filters
  outputs _ := []

def searchMutationPointsTask (canMutate : IRMutation → Place → Bool) (mutators : List Mutator) :
    Task FunctionUnderTest MutationPoint where
  element := id
  outputs f := mutators.flatMap fun mutator =>
    (mutator.getMutations canMutate f).map fun point => point.setCovered f.covered

/-- `filterFunctions` can return the result. -/
def FilterFunctions (workers : Nat) :
    List FunctionFilter → List FunctionUnderTest → List FunctionUnderTest → Prop
  | [], functions, result => result = functions
  | filter :: filters, functions, result => ∃ moved tmp,
      Executes (functionFilterTask filter) workers functions moved tmp ∧
      FilterFunctions workers filters tmp result

/-- `findMutationPoints` can return the points. -/
def FindMutationPoints (canMutate : IRMutation → Place → Bool) (config : Configuration)
    (program : List Module) (points : List MutationPoint) : Prop :=
  ∃ filteredFunctions selectedFunctions nothing searched,
    FilterFunctions config.workers config.filters.functionFilters
      (getFunctionsUnderTest config.coverage config.includeNotCovered program) filteredFunctions ∧
    Executes (instructionSelectionTask config.filters.instructionFilters) config.workers filteredFunctions
      selectedFunctions nothing ∧
    Executes (searchMutationPointsTask canMutate config.mutators) config.workers
      selectedFunctions searched points

section
variable {canMutate : IRMutation → Place → Bool} {config : Configuration} {program : List Module}

def keptFunctions (filters : List FunctionFilter) (functions : List FunctionUnderTest) :
    List FunctionUnderTest :=
  functions.filter fun f => filters.all fun filter => !filter f.function

theorem functionFilterTask_outputs (filter : FunctionFilter) (functions : List FunctionUnderTest) :
    functions.flatMap (functionFilterTask filter).outputs = functions.filter fun f => !filter f.function := by
  induction functions with
  | nil => rfl
  | cons f rest ih =>
    rw [List.flatMap_cons, ih, List.filter_cons]
    cases skipped : filter f.function <;> simp [functionFilterTask, skipped]

theorem filterFunctions_iff {workers : Nat} (positive : 1 ≤ workers) {filters : List FunctionFilter}
    {functions result : List FunctionUnderTest} (fits : CanSplit workers functions.length) :
    FilterFunctions workers filters functions result ↔ result = keptFunctions filters functions := by
  induction filters generalizing functions with
  | nil =>
    unfold FilterFunctions keptFunctions
    simp
  | cons filter filters ih =>
    unfold FilterFunctions
    have shorter : CanSplit workers (functions.filter fun f => !filter f.function).length :=
      fits.mono (List.length_filter_le _ _)
    have rest : keptFunctions filters (functions.filter fun f => !filter f.function) =
        keptFunctions (filter :: filters) functions := by
      unfold keptFunctions
      rw [List.filter_filter]
      simp only [List.all_cons, Bool.and_comm]
    simp only [executes_iff positive fits, functionFilterTask_outputs, ← rest, ← ih shorter]
    constructor
    · rintro ⟨_, _, ⟨-, rfl⟩, later⟩
      exact later
    · intro later
      exact ⟨_, _, ⟨rfl, rfl⟩, later⟩

def foundPoints (canMutate : IRMutation → Place → Bool) (config : Configuration) (program : List Module) :
    List MutationPoint :=
  (((keptFunctions config.filters.functionFilters
    (getFunctionsUnderTest config.coverage config.includeNotCovered program)).map
      (FunctionUnderTest.selectInstructions config.filters.instructionFilters)).flatMap
        (searchMutationPointsTask canMutate config.mutators).outputs)

theorem findMutationPoints_iff (positive : 1 ≤ config.workers) (fits : CanSplit config.workers
      (getFunctionsUnderTest config.coverage config.includeNotCovered program).length)
    {points : List MutationPoint} :
    FindMutationPoints canMutate config program points ↔ points = foundPoints canMutate config program := by
  have kept : CanSplit config.workers (keptFunctions config.filters.functionFilters
      (getFunctionsUnderTest config.coverage config.includeNotCovered program)).length :=
    fits.mono (List.length_filter_le _ _)
  have selected : CanSplit config.workers ((keptFunctions config.filters.functionFilters
      (getFunctionsUnderTest config.coverage config.includeNotCovered program)).map
        (FunctionUnderTest.selectInstructions config.filters.instructionFilters)).length := by
    rw [List.length_map]
    exact kept
  unfold FindMutationPoints
  simp only [filterFunctions_iff positive fits]
  constructor
  · rintro ⟨_, _, nothing, searched, rfl, selection, search⟩
    obtain ⟨rfl, -⟩ := (executes_iff positive kept).mp selection
    exact ((executes_iff positive selected).mp search).2
  · rintro rfl
    exact ⟨_, _, _, _, rfl, (executes_iff positive kept).mpr ⟨rfl, rfl⟩,
      (executes_iff positive selected).mpr ⟨rfl, rfl⟩⟩

theorem not_findMutationPoints (positive : 1 ≤ config.workers) (unfit : ¬ CanSplit config.workers
      (getFunctionsUnderTest config.coverage config.includeNotCovered program).length)
    (points : List MutationPoint) : ¬ FindMutationPoints canMutate config program points := by
  rintro ⟨filtered, _, _, _, filtering, selection, -⟩
  cases filters : config.filters.functionFilters with
  | nil =>
    rw [filters] at filtering
    obtain rfl : filtered = _ := filtering
    exact not_executes positive unfit selection
  | cons filter rest =>
    rw [filters] at filtering
    obtain ⟨_, _, first, -⟩ := filtering
    exact not_executes positive unfit first

end

end Mull.Driver
