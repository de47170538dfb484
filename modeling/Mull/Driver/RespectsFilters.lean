import Mull.Driver.FindMutationPoints
import Mull.Mutators.PhiNodes

/-! The points that the driver finds against the configured filters. The logical mutators go through all
instructions of a function, so they alone find points at instructions that a filter skips. -/

namespace Mull.Driver
open LLVM Parallelization

def instructionOf (program : List Module) (point : MutationPoint) : Option Place :=
  program[point.bitcode]?.bind point.address.findInstruction

def Filters.Keep (filters : Filters) (instruction : Place) : Prop :=
  (∀ filter ∈ filters.functionFilters, filter instruction.function = false) ∧
    ∀ filter ∈ filters.instructionFilters, filter instruction = false

/-- Every point is in a function and at an instruction that no filter skips. -/
def RespectsFilters (canMutate : IRMutation → Place → Bool) (config : Configuration)
    (program : List Module) : Prop :=
  ∀ points, FindMutationPoints canMutate config program points →
    ∀ point ∈ points, ∃ instruction, instructionOf program point = some instruction ∧
    config.filters.Keep instruction

def FindsPattern (mutators : List Mutator) (instruction : Place) : Prop :=
  ∃ logical : LogicalMutator, logical.toMutator ∈ mutators ∧
    (logical.findPossibleMutation instruction.function instruction.parent instruction.instruction).isSome =
      true

section
variable {canMutate : IRMutation → Place → Bool} {config : Configuration} {program : List Module}

theorem mem_keptFunctions {filters : List FunctionFilter} {functions : List FunctionUnderTest}
    {f : FunctionUnderTest} :
    f ∈ keptFunctions filters functions ↔ f ∈ functions ∧ ∀ filter ∈ filters, filter f.function = false := by
  unfold keptFunctions
  simp

theorem instruction_function {f : Function} {place : Place} (mem : place ∈ f.instructions) :
    place.function = f := by
  have found := Function.mem_instructions.mp mem
  simp only [Function.place?, bind, Option.bind_eq_some_iff] at found
  obtain ⟨_, -, _, -, same⟩ := found
  rw [← Option.some.inj same]

theorem instructionOf_create {f : FunctionUnderTest} (mem : f ∈ getFunctionsUnderTest config.coverage
      config.includeNotCovered program) {place : Place} (inside : place ∈ f.function.instructions)
    (mutator : Mutator) (irMutator : Option IRMutation) :
    instructionOf program (.create mutator irMutator place f.bitcode) = some place := by
  obtain ⟨mem_bitcode, mem_function, -⟩ := getFunctionsUnderTest_mem mem
  have at_position := mem_bitcodes.mp mem_bitcode
  show program[f.bitcode.position]?.bind _ = _
  rw [at_position]
  exact MutationPointAddress.findInstruction_addressFromInstruction mem_function inside

theorem mem_foundPoints {point : MutationPoint} : point ∈ foundPoints canMutate config program ↔
    ∃ f ∈ keptFunctions config.filters.functionFilters
        (getFunctionsUnderTest config.coverage config.includeNotCovered program),
      ∃ mutator ∈ config.mutators,
        ∃ found ∈ mutator.getMutations canMutate (f.selectInstructions config.filters.instructionFilters),
          found.setCovered f.covered = point := by
  unfold foundPoints searchMutationPointsTask
  simp only [List.mem_flatMap, List.mem_map, exists_exists_and_eq_and]
  rfl

/-- Where the stages return, the filters are respected exactly when no pattern is found at an instruction they
skip, in a function they keep. -/
theorem foundPoints_respect : (∀ point ∈ foundPoints canMutate config program, ∃ instruction,
      instructionOf program point = some instruction ∧ config.filters.Keep instruction) ↔
    ∀ f ∈ keptFunctions config.filters.functionFilters
        (getFunctionsUnderTest config.coverage config.includeNotCovered program),
      ∀ instruction ∈ f.function.instructions, FindsPattern config.mutators instruction →
        ∀ filter ∈ config.filters.instructionFilters, filter instruction = false := by
  constructor
  · rintro respects f kept instruction inside ⟨logical, enabled, found⟩
    obtain ⟨mem, -⟩ := mem_keptFunctions.mp kept
    have own := instruction_function inside
    rw [own] at found
    have point : (MutationPoint.create logical.toMutator none instruction f.bitcode).setCovered f.covered ∈
        foundPoints canMutate config program := by
      refine mem_foundPoints.mpr ⟨f, kept, _, enabled, _, ?_, rfl⟩
      rw [Mutator.getMutations_logical]
      exact Mutator.mem_logicalMutations.mpr ⟨instruction, inside, found, rfl⟩
    obtain ⟨other, created, keep⟩ := respects _ point
    have same : instructionOf program _ = some instruction :=
      instructionOf_create mem inside logical.toMutator none
    have eq : some other = some instruction := created.symm.trans same
    cases eq
    exact keep.2
  · intro quiet point mem_point
    obtain ⟨f, kept, mutator, enabled, found, mem_found, rfl⟩ := mem_foundPoints.mp mem_point
    obtain ⟨mem, keep⟩ := mem_keptFunctions.mp kept
    have fresh := (getFunctionsUnderTest_mem mem).2.2
    rcases Mutator.mem_getMutations mem_found with
      ⟨irMutator, place, selected, rfl⟩ | ⟨logical, rfl, mem_logical⟩
    · obtain ⟨inside, unskipped⟩ := (FunctionUnderTest.mem_selectInstructions fresh).mp selected
      refine ⟨place, instructionOf_create mem inside mutator irMutator, ?_, unskipped⟩
      rw [instruction_function inside]
      exact keep
    · obtain ⟨place, inside, pattern, rfl⟩ := Mutator.mem_logicalMutations.mp mem_logical
      have own : place.function = f.function := instruction_function inside
      refine ⟨place, instructionOf_create mem inside logical.toMutator none, ?_, ?_⟩
      · rw [own]
        exact keep
      · exact quiet f kept place inside ⟨logical, enabled, own ▸ pattern⟩

/-- The filters are respected exactly when nothing is searched, the functions cannot be split, or no enabled logical
mutator finds its pattern at an instruction that is skipped in a function that is kept. -/
theorem respectsFilters_iff : RespectsFilters canMutate config program ↔
    config.workers = 0 ∨
    ¬ CanSplit config.workers (getFunctionsUnderTest config.coverage config.includeNotCovered
      program).length ∨
    ∀ f ∈ getFunctionsUnderTest config.coverage config.includeNotCovered program,
      (∀ filter ∈ config.filters.functionFilters, filter f.function = false) →
        ∀ instruction ∈ f.function.instructions, FindsPattern config.mutators instruction →
          ∀ filter ∈ config.filters.instructionFilters, filter instruction = false := by
  rcases Nat.eq_zero_or_pos config.workers with idle | positive
  · refine ⟨fun _ => .inl idle, fun _ points found point mem => ?_⟩
    obtain ⟨_, _, _, _, -, -, search⟩ := found
    rw [idle] at search
    rw [executes_none search] at mem
    cases mem
  by_cases fits : CanSplit config.workers
      (getFunctionsUnderTest config.coverage config.includeNotCovered program).length
  · have reduce : RespectsFilters canMutate config program ↔ ∀ point ∈ foundPoints canMutate config program,
        ∃ instruction, instructionOf program point = some instruction ∧ config.filters.Keep instruction := by
      unfold RespectsFilters
      simp only [findMutationPoints_iff positive fits, forall_eq]
    rw [reduce, foundPoints_respect]
    simp only [mem_keptFunctions, and_imp, positive.ne', fits, not_true_eq_false, false_or]
  · refine ⟨fun _ => .inr (.inl fits), fun _ points found => ?_⟩
    exact absurd found (not_findMutationPoints positive fits points)

end

/-- The configuration of a run on a change that touches nothing, over a program with one `||`. -/
def emptyDiff : Configuration where
  workers := 1
  filters := { functionFilters := [], instructionFilters := [fun _ => true] }
  mutators := [.logicalOrToAnd]

def orModule : Module where
  functions := [LogicalMutator.orCondition]
  distinct := by decide
  named := by decide

theorem not_respectsFilters_emptyDiff : ¬ RespectsFilters (fun _ _ => false) emptyDiff [orModule] := by
  intro respects
  have points : FindMutationPoints (fun _ _ => false) emptyDiff [orModule] _ :=
    (findMutationPoints_iff (by decide) (.inl rfl)).mpr rfl
  have quiet := foundPoints_respect.mp (respects _ points)
  have skipped := quiet ⟨LogicalMutator.orCondition, ⟨0, orModule⟩, true, []⟩ (by decide)
    ⟨LogicalMutator.orCondition, LogicalMutator.orCondition.blocks[0], 0, 0,
      .terminator (.condBr (.argument 0) 2 1) none⟩ (by decide) ⟨.orToAnd, by decide, by decide⟩ _
        List.mem_cons_self
  cases skipped

end Mull.Driver
