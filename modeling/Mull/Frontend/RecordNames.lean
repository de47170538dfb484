import Mull.Base.Delimited
import Mull.Frontend.MutationPoint

/-! The variables that hold the records of the mutants: what they are called, and when two are called the same. -/

namespace Mull
open Base

namespace MutatorKind

/-- The order of the enumeration. -/
def declarationOrder : List MutatorKind := [
  invalidKind, negateMutator, scalarValueMutator, cxxRemoveVoidCall, cxxReplaceScalarCall,
  cxxAddToSub, cxxAddAssignToSubAssign, cxxPreIncToPreDec, cxxPostIncToPostDec,
  cxxSubToAdd, cxxSubAssignToAddAssign, cxxPreDecToPreInc, cxxPostDecToPostInc,
  cxxMulToDiv, cxxMulAssignToDivAssign, cxxDivToMul, cxxDivAssignToMulAssign,
  cxxRemToDiv, cxxRemAssignToDivAssign, cxxBitwiseNotToNoop, cxxUnaryMinusToNoop,
  cxxLShiftToRShift, cxxLShiftAssignToRShiftAssign, cxxRShiftToLShift, cxxRShiftAssignToLShiftAssign,
  cxxLogicalAndToOr, cxxLogicalOrToAnd,
  cxxBitwiseOrToAnd, cxxBitwiseOrAssignToAndAssign, cxxBitwiseAndToOr, cxxBitwiseAndAssignToOrAssign,
  cxxBitwiseXorToOr, cxxBitwiseXorAssignToOrAssign,
  cxxLessThanToLessOrEqual, cxxLessOrEqualToLessThan, cxxGreaterThanToGreaterOrEqual,
  cxxGreaterOrEqualToGreaterThan, cxxGreaterThanToLessOrEqual, cxxGreaterOrEqualToLessThan,
  cxxLessThanToGreaterOrEqual, cxxLessOrEqualToGreaterThan, cxxEqualToNotEqual, cxxNotEqualToEqual,
  cxxAssignConst, cxxInitConst, cxxRemoveNegation]

/-- `static_cast<int>`. -/
def toInt (kind : MutatorKind) : Int32 := .ofNat (declarationOrder.idxOf kind)

theorem toInt_inj {kind kind' : MutatorKind} : kind.toInt = kind'.toInt ↔ kind = kind' := by
  refine ⟨fun same => ?_, congrArg toInt⟩
  have listed (kind : MutatorKind) : declarationOrder[(kind.toInt.toInt).toNat]? = some kind := by
    cases kind <;> rfl
  have entry := listed kind
  rw [same, listed kind'] at entry
  exact (Option.some.inj entry).symm

end MutatorKind

namespace Frontend

/-- The variable that `addMutantStringDefinition` defines. -/
def variableName (mutator line column : Int32) : Text :=
  "mull_mutation_".toList ++ toText mutator ++ '_' :: toText line ++ '_' :: toText column

theorem variableName_inj {mutator line column mutator' line' column' : Int32} :
    variableName mutator line column = variableName mutator' line' column' ↔
      mutator = mutator' ∧ line = line' ∧ column = column' := by
  have numeral (n : Int32) : '_' ∉ toText n := toText_free (by decide) (by decide) n
  unfold variableName
  simp only [List.append_assoc, List.cons_append]
  rw [List.append_cancel_left_eq, split_first (numeral _) (numeral _),
    split_first (numeral _) (numeral _), toText_inj, toText_inj, toText_inj]

section
variable {μ : Type}

def ASTMutationPoint.recordName (point : ASTMutationPoint μ) : Text :=
  variableName point.mutationType.toInt point.beginLine point.beginColumn

/-- The findings of one translation unit, in the order in which they are made. -/
abbrev TranslationUnit (μ : Type) := List (Finding μ)

variable (endOfToken : Location → Int32 × Int32)

def recordedPoints (unit : TranslationUnit μ) : List (ASTMutationPoint μ) :=
  unit.filterMap (recordMutationPoint endOfToken)

/-- The names that the units of a program define with external linkage, one after the other. -/
def definedNames (program : List (TranslationUnit μ)) : List Text :=
  program.flatMap fun unit => (recordedPoints endOfToken unit).map ASTMutationPoint.recordName

def ASTMutationPoint.position (point : ASTMutationPoint μ) : MutatorKind × Int32 × Int32 :=
  (point.mutationType, point.beginLine, point.beginColumn)

theorem recordName_inj {point point' : ASTMutationPoint μ} :
    point.recordName = point'.recordName ↔ point.position = point'.position := by
  unfold ASTMutationPoint.recordName ASTMutationPoint.position
  rw [variableName_inj, MutatorKind.toInt_inj, Prod.mk.injEq, Prod.mk.injEq]

/-- The names are distinct exactly where no two recorded points of the program have the same mutator at the same
line and column, whatever their files. -/
theorem definedNames_nodup_iff (program : List (TranslationUnit μ)) :
    (definedNames endOfToken program).Nodup ↔
    (program.flatMap (recordedPoints endOfToken)).Pairwise fun point point' =>
      point.position ≠ point'.position := by
  unfold definedNames
  rw [← List.map_flatMap]
  unfold List.Nodup
  rw [List.pairwise_map]
  refine ⟨fun apart => apart.imp fun differ same => differ ?_,
    fun apart => apart.imp fun differ same => differ ?_⟩
  · exact recordName_inj.mpr same
  · exact recordName_inj.mp same

end

/-- `a + b` in an inline function of `a.h`. -/
def headerSum : Finding Unit where
  mutatorKind := .cxxAddToSub
  mutation := ()
  mutationLocation := .file ⟨"a.h".toList, 3, 12, false⟩
  rangeEnd := .file ⟨"a.h".toList, 3, 14, false⟩
  locationIsExpression := false

/-- Two units that include the header. -/
theorem not_definedNames_nodup_header :
    ¬ (definedNames (fun _ => (3, 13)) [[headerSum], [headerSum]]).Nodup := by
  decide

end Frontend
end Mull
