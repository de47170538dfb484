import Mull.MutationPoint
import Mull.Parallelization.FilterPipeline

/-! `Driver::filterMutations`: one mutation filter after the other, each applied by a task executor. -/

namespace Mull.Driver
open Parallelization

/-- What `shouldSkip` answers, and the end location that it gives the point it is asked about. -/
structure MutationFilter where
  shouldSkip : MutationPoint → Bool
  endLocation : MutationPoint → Option (Int32 × Int32) := fun _ => none

namespace MutationFilter

def leave (filter : MutationFilter) (point : MutationPoint) : MutationPoint :=
  match filter.endLocation point with
  | none => point
  | some (line, column) => point.setEndLocation line column

def keep (filter : MutationFilter) (point : MutationPoint) : Option MutationPoint :=
  if filter.shouldSkip point then none else some (filter.leave point)

def plain (filter : MutationFilter) : PlainFilter MutationPoint := fun point =>
  (filter.shouldSkip point, filter.leave point)

end MutationFilter

def mutationFilterTask (filter : MutationFilter) : Task MutationPoint MutationPoint where
  element := filter.leave
  outputs point := if filter.shouldSkip point then [] else [filter.leave point]

/-- `filterMutations` can return the result. -/
def FilterMutations (workers : Nat) : List MutationFilter → List MutationPoint → List MutationPoint → Prop
  | [], points, result => result = points
  | filter :: filters, points, result => ∃ moved tmp,
      Executes (mutationFilterTask filter) workers points moved tmp ∧
      FilterMutations workers filters tmp result

theorem filterMutations_eq (workers : Nat) (filters : List MutationFilter)
    (points result : List MutationPoint) :
    FilterMutations workers filters points result ↔
    FilterAll workers (filters.map MutationFilter.plain) points result := by
  induction filters generalizing points with
  | nil => exact Iff.rfl
  | cons filter filters ih =>
    exact exists_congr fun moved => exists_congr fun tmp => and_congr_right fun _ => ih tmp

/-- The point as all filters leave it, unless one of them skips it. -/
def keptPoint : List MutationFilter → MutationPoint → Option MutationPoint
  | [], point => some point
  | filter :: filters, point => (filter.keep point).bind (keptPoint filters)

def keptPoints (filters : List MutationFilter) (points : List MutationPoint) : List MutationPoint :=
  points.filterMap (keptPoint filters)

/-- Filters tell where a point ends and nothing else. -/
def SamePoint (point point' : MutationPoint) : Prop :=
  point' = { point with endLocation := point'.endLocation }

section
variable {filter : MutationFilter} {filters : List MutationFilter} {point point' : MutationPoint}
  {points result : List MutationPoint} {workers : Nat}

theorem MutationFilter.leave_same (filter : MutationFilter) (point : MutationPoint) :
    SamePoint point (filter.leave point) := by
  unfold leave
  split <;> rfl

theorem keptPoint_same (kept : keptPoint filters point = some point') : SamePoint point point' := by
  induction filters generalizing point with
  | nil =>
    obtain rfl := Option.some.inj kept
    rfl
  | cons filter filters ih =>
    obtain ⟨left, keeps, kept⟩ := Option.bind_eq_some_iff.mp kept
    unfold MutationFilter.keep at keeps
    split at keeps
    · cases keeps
    · obtain rfl := Option.some.inj keeps
      have first := filter.leave_same point
      have rest := ih kept
      unfold SamePoint at first rest ⊢
      rw [rest, first]

theorem mem_keptPoints (mem : point' ∈ keptPoints filters points) :
    ∃ point ∈ points, SamePoint point point' := by
  obtain ⟨point, listed, kept⟩ := List.mem_filterMap.mp mem
  exact ⟨point, listed, keptPoint_same kept⟩

theorem keptPoints_cons : keptPoints (filter :: filters) points = keptPoints filters
    (points.filterMap filter.keep) := by
  unfold keptPoints
  rw [List.filterMap_filterMap]
  rfl

theorem mutationFilterTask_outputs (filter : MutationFilter) (points : List MutationPoint) :
    points.flatMap (mutationFilterTask filter).outputs = points.filterMap filter.keep := by
  rw [List.filterMap_eq_flatMap_toList]
  congr
  funext point
  show (if filter.shouldSkip point then [] else [filter.leave point]) = (filter.keep point).toList
  unfold MutationFilter.keep
  cases filter.shouldSkip point <;> rfl

theorem filterMutations_result (positive : 1 ≤ workers)
    (filtered : FilterMutations workers filters points result) :
    result = keptPoints filters points := by
  induction filters generalizing points with
  | nil =>
    rw [show result = points from filtered]
    exact List.filterMap_some.symm
  | cons filter filters ih =>
    obtain ⟨moved, tmp, first, later⟩ := filtered
    obtain ⟨-, rfl⟩ := executes_result positive first
    rw [ih later, mutationFilterTask_outputs, keptPoints_cons]

theorem filterMutations_canSplit (positive : 1 ≤ workers)
    (filtered : FilterMutations workers filters points result) :
    filters = [] ∨ CanSplit workers points.length := by
  cases filters with
  | nil => exact .inl rfl
  | cons filter filters =>
    obtain ⟨moved, tmp, first, -⟩ := filtered
    right
    by_contra unfit
    exact not_executes positive unfit first

theorem filterMutations_returns (positive : 1 ≤ workers)
    (fits : filters = [] ∨ CanSplit workers points.length) :
    FilterMutations workers filters points (keptPoints filters points) := by
  induction filters generalizing points with
  | nil => exact List.filterMap_some
  | cons filter filters ih =>
    have fits := fits.resolve_left (List.cons_ne_nil filter filters)
    have first : Executes (mutationFilterTask filter) workers points (points.map filter.leave)
        (points.filterMap filter.keep) :=
      (executes_iff positive fits).mpr ⟨rfl, (mutationFilterTask_outputs filter points).symm⟩
    have later := ih (.inr (fits.mono (List.length_filterMap_le filter.keep points)))
    rw [← keptPoints_cons] at later
    exact ⟨_, _, first, later⟩

end

end Mull.Driver
