import Mull.Driver.FindMutationPoints
import Mull.Filters.GitDiff
import Mull.Parallelization.SharedState

/-! The instruction filters of `mull-cxx`, of which the one of the git diff computes with `int`. -/

namespace Mull.Driver
open Base LLVM Parallelization Mull.Filters

/-- `shouldSkip`, which fails where an `int` overflows. -/
abbrev CheckedFilter := Place → Option Bool

def skips : List CheckedFilter → CheckedFilter
  | [], _ => some false
  | filter :: filters, place => do if ← filter place then some true else skips filters place

def selected (filters : List CheckedFilter) : List Place → Option (List Place)
  | [] => some []
  | place :: places => do
    let skip ← skips filters place
    let rest ← selected filters places
    some (if skip then rest else place :: rest)

def instructionSelectionTurn (filters : List CheckedFilter) :
    SharedTurn Unit Unit FunctionUnderTest Unit := fun f _ =>
  match selected filters f.function.instructions with
  | none => .error ()
  | some places => .ok (({ f with selectedInstructions := f.selectedInstructions ++ places }, []), ())

def instructionPasses (gitDiff : Option GitDiffInfo) : List CheckedFilter :=
  (fun place => some (SourceLocation.locationFromInstruction place.instruction).isNull) ::
    (gitDiff.map fun info place => shouldSkip info place.instruction).toList

def instructionFilters (gitDiff : Option GitDiffInfo) : List InstructionFilter :=
  (fun place => (SourceLocation.locationFromInstruction place.instruction).isNull) ::
    (gitDiff.map fun info place => (shouldSkip info place.instruction).getD true).toList

/-- The end of every range is an `int`. -/
def RangesFit (info : GitDiffInfo) : Prop :=
  ∀ path, ∀ range ∈ (info.lookup path).getD [], ∃ sum, narrow (range.1.toInt + range.2.toInt) = some sum ∧
    (narrow (sum.toInt - 1)).isSome = true

section
variable {filters : List CheckedFilter} {plains : List InstructionFilter} {gitDiff : Option GitDiffInfo}

theorem skipsLine_answers {line : Int32} {ranges : List GitDiffSourceFileRange}
    (fit : ∀ range ∈ ranges, ∃ sum,
      narrow (range.1.toInt + range.2.toInt) = some sum ∧ (narrow (sum.toInt - 1)).isSome = true) :
    (skipsLine line ranges).isSome = true := by
  induction ranges with
  | nil => rfl
  | cons range ranges ih =>
    obtain ⟨sum, isSum, fits⟩ := fit range List.mem_cons_self
    obtain ⟨rangeEnd, isEnd⟩ := Option.isSome_iff_exists.mp fits
    unfold skipsLine
    rw [isSum, Option.bind_eq_bind, Option.bind_some, isEnd, Option.bind_some]
    split
    · rfl
    · exact ih fun other mem => fit other (List.mem_cons_of_mem _ mem)

theorem shouldSkip_answers {info : GitDiffInfo} (fit : RangesFit info) (instruction : Inst) :
    (shouldSkip info instruction).isSome = true := by
  rw [shouldSkip_eq]
  split
  · rfl
  · exact skipsLine_answers (fit _)

theorem skips_answers
    (same : List.Forall₂ (fun filter plain => ∀ place, filter place = some (plain place)) filters plains)
    (place : Place) : skips filters place = some (plains.any fun plain => plain place) := by
  induction same with
  | nil => rfl
  | @cons filter plain filters plains answer rest ih =>
    unfold skips
    rw [answer place, Option.bind_eq_bind, Option.bind_some, List.any_cons]
    cases plain place with
    | true => rfl
    | false => exact ih

theorem selected_answers
    (same : List.Forall₂ (fun filter plain => ∀ place, filter place = some (plain place)) filters plains)
    (places : List Place) :
    selected filters places = some (places.filter fun place => !plains.any fun plain => plain place) := by
  induction places with
  | nil => rfl
  | cons place places ih =>
    unfold selected
    rw [skips_answers same, ih, List.filter_cons]
    cases plains.any fun plain => plain place <;> rfl

theorem instructionPasses_same (fit : ∀ info, gitDiff = some info → RangesFit info) :
    List.Forall₂ (fun filter plain => ∀ place, filter place = some (plain place)) (instructionPasses gitDiff)
      (instructionFilters gitDiff) := by
  refine .cons (fun _ => rfl) ?_
  cases gitDiff with
  | none => exact .nil
  | some info =>
    refine .cons (fun place => ?_) .nil
    obtain ⟨skip, answer⟩ := Option.isSome_iff_exists.mp (shouldSkip_answers (fit info rfl) place.instruction)
    show shouldSkip info place.instruction = some ((shouldSkip info place.instruction).getD true)
    rw [answer]
    rfl

theorem instructionSelection_answers (fit : ∀ info, gitDiff = some info → RangesFit info)
    (functions : List FunctionUnderTest) :
      AnswersAs (instructionSelectionTurn (instructionPasses gitDiff)) (fun _ => True)
      (instructionSelectionTask (instructionFilters gitDiff)) functions := by
  intro f _ _ _
  refine ⟨(), ?_, trivial⟩
  unfold instructionSelectionTurn
  rw [selected_answers (instructionPasses_same fit)]
  rfl

end

end Mull.Driver
