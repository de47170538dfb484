import Mathlib.Logic.Function.Basic
import Mull.Base.Grouping
import Mull.MutationPoint

/-! The records that `ApplyMutationTask` leaves in the modules of the program, and their order in the
linked executable. -/

namespace Mull.Driver
open Base

abbrev Records := Nat → List Text

/-- `recordMutation` adds a global to the module of the point's function, covered or not. -/
def recordMutation (records : Records) (point : MutationPoint) : Records :=
  Function.update records point.bitcode (records point.bitcode ++ [point.encoding])

def recordMutations (points : List MutationPoint) : Records := points.foldl recordMutation fun _ => []

/-- The linker puts the modules' records one after the other. -/
def linkedRecords (bitcodes : List Nat) (points : List MutationPoint) : List Text :=
  bitcodes.flatMap (recordMutations points)

def linkedPoints (bitcodes : List Nat) (points : List MutationPoint) : List MutationPoint :=
  bitcodes.flatMap fun bitcode => points.filter fun point => point.bitcode = bitcode

theorem recordMutations_eq (points : List MutationPoint) (bitcode : Nat) :
    recordMutations points bitcode = (points.filter fun point => point.bitcode = bitcode).map
      MutationPoint.encoding := by
  have run (rest : List MutationPoint) : ∀ records : Records, rest.foldl recordMutation records bitcode =
      records bitcode ++ (rest.filter fun point => point.bitcode = bitcode).map MutationPoint.encoding := by
    induction rest with
    | nil => simp
    | cons point rest ih =>
      intro records
      rw [List.foldl_cons, ih]
      by_cases same : point.bitcode = bitcode
      · subst same
        simp [recordMutation]
      · simp [recordMutation, Function.update_of_ne (Ne.symm same), same]
  simpa [recordMutations] using run points fun _ => []

theorem linkedRecords_eq (bitcodes : List Nat) (points : List MutationPoint) :
    linkedRecords bitcodes points = (linkedPoints bitcodes points).map MutationPoint.encoding := by
  simp only [linkedRecords, linkedPoints, List.map_flatMap]
  exact congrArg (bitcodes.flatMap ·) (funext (recordMutations_eq points))

theorem linkedPoints_perm {bitcodes : List Nat} {points : List MutationPoint} (distinct : bitcodes.Nodup)
    (within : ∀ point ∈ points, point.bitcode ∈ bitcodes) : (linkedPoints bitcodes points).Perm points :=
  filters_perm distinct within

end Mull.Driver
