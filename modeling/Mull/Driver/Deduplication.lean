import Mull.Base.Grouping
import Mull.Mutant

/-! `Driver::run` reports one mutant for each user identifier. -/

namespace Mull.Driver
open Base

/-- The mutant of one identifier. The map holds no empty vector, so `front` has a point to return. -/
def reportMutant (identifier : Text) : List MutationPoint → Option Mutant
  | [] => none
  | anyPoint :: rest => some {
      identifier := identifier
      mutatorIdentifier := anyPoint.mutator.getUniqueIdentifier
      sourceLocation := anyPoint.sourceLocation
      endLocation := anyPoint.endLocation
      covered := (anyPoint :: rest).any MutationPoint.covered
      mutatorKind := anyPoint.mutator.mutatorKind }

/-- The map from identifiers to points, as the points come. -/
def mapping (points : List MutationPoint) : List (Text × List MutationPoint) :=
  groups MutationPoint.getUserIdentifier points

/-- The reported mutants, for one order in which the hash map may be iterated. -/
def deduplicate (iteration : List (Text × List MutationPoint)) : List Mutant :=
  (iteration.filterMap fun pair => reportMutant pair.1 pair.2).mergeSort fun lhs rhs =>
    !MutantComparator rhs lhs

section
variable {points : List MutationPoint} {iteration : List (Text × List MutationPoint)}

theorem mapping_grouped (iterated : iteration.Perm (mapping points)) :
    Grouped MutationPoint.getUserIdentifier points iteration :=
  (groups_grouped points).perm iterated

theorem deduplicate_perm (iteration : List (Text × List MutationPoint)) :
    (deduplicate iteration).Perm (iteration.filterMap fun pair => reportMutant pair.1 pair.2) :=
  List.mergeSort_perm _ _

theorem reportMutant_isSome {pair : Text × List MutationPoint}
    (grouped : Grouped MutationPoint.getUserIdentifier points iteration) (mem : pair ∈ iteration) :
    (reportMutant pair.1 pair.2).isSome = true := by
  obtain ⟨point, -, -, mem_point⟩ := grouped.nonempty mem
  cases group : pair.2 with
  | nil => simp [group] at mem_point
  | cons anyPoint rest => rfl

theorem deduplicate_length (iterated : iteration.Perm (mapping points)) :
    (deduplicate iteration).length = (points.map MutationPoint.getUserIdentifier).dedup.length := by
  have grouped := mapping_grouped iterated
  rw [(deduplicate_perm iteration).length_eq, List.length_filterMap_eq_countP,
    List.countP_eq_length.mpr fun pair mem => reportMutant_isSome grouped mem, ← grouped.keys_perm.length_eq,
    List.length_map]

theorem reportMutant_single (point : MutationPoint) :
    (reportMutant point.getUserIdentifier [point]).map Mutant.view = some point.view := by
  simp [reportMutant, Mutant.view, MutationPoint.view]

theorem deduplicate_distinct (iterated : iteration.Perm (mapping points))
    (distinct : (points.map MutationPoint.getUserIdentifier).Nodup) :
    ((deduplicate iteration).map Mutant.view).Perm (points.map MutationPoint.view) := by
  have single := (mapping_grouped iterated).singletons distinct
  refine ((deduplicate_perm iteration).map _).trans ((single.filterMap _ |>.map _).trans (.of_eq ?_))
  rw [List.filterMap_map, List.map_filterMap, ← List.filterMap_eq_map]
  exact congrFun (congrArg List.filterMap (funext reportMutant_single)) points

end

end Mull.Driver
