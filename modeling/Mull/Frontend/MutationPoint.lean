import Mathlib.Data.List.Infix
import Mull.Mutators.Mutator

/-! Mutation points of the `mull-cxx-frontend` plugin: where they are and what they are called. -/

namespace Mull.Frontend
open Base

/-- A place in a file; `isSystem` says whether the file counts as a system header there. -/
structure FilePosition where
  filename : Text
  line : Int32
  column : Int32
  isSystem : Bool
deriving DecidableEq

/-- Where a token is, or where it was spelled and where its macro was expanded. -/
inductive Location
  | file (position : FilePosition)
  | expanded (spelling expansion : FilePosition)
deriving DecidableEq

namespace Location

def isMacroID : Location → Bool
  | file _ => false
  | expanded _ _ => true

def getSpellingLoc : Location → Location
  | file position => file position
  | expanded spelling _ => file spelling

def getExpansionLoc : Location → FilePosition
  | file position => position
  | expanded _ expansion => expansion

def isInSystemHeader (location : Location) : Bool := location.getExpansionLoc.isSystem

def isInSystemMacro : Location → Bool
  | file _ => false
  | expanded spelling _ => spelling.isSystem

/-- `none` stands for the empty path of a place that is in no file. -/
def getFilename : Location → Text
  | file position => position.filename
  | expanded _ _ => []

end Location

/-- What the visitor finds to mutate: a mutation of a statement, with the mutated location and the end of the
statement's range. -/
structure Finding (μ : Type) where
  mutatorKind : MutatorKind
  mutation : μ
  mutationLocation : Location
  rangeEnd : Location
  locationIsExpression : Bool

structure ASTMutationPoint (μ : Type) where
  mutation : μ
  mutationType : MutatorKind
  identifier : Text
  sourceFilePath : Text
  beginLine : Int32
  beginColumn : Int32
  endLine : Int32
  endColumn : Int32
deriving DecidableEq

def MUTATIONS_MAP : List (Text × MutatorKind) := [
  ("cxx_add_to_sub".toList, .cxxAddToSub),
  ("cxx_sub_to_add".toList, .cxxSubToAdd),
  ("cxx_mul_to_div".toList, .cxxMulToDiv),
  ("cxx_div_to_mul".toList, .cxxDivToMul),
  ("cxx_rem_to_div".toList, .cxxRemToDiv),
  ("cxx_eq_to_ne".toList, .cxxEqualToNotEqual),
  ("cxx_ne_to_eq".toList, .cxxNotEqualToEqual),
  ("cxx_ge_to_gt".toList, .cxxGreaterOrEqualToGreaterThan),
  ("cxx_ge_to_lt".toList, .cxxGreaterOrEqualToLessThan),
  ("cxx_gt_to_ge".toList, .cxxGreaterThanToGreaterOrEqual),
  ("cxx_gt_to_le".toList, .cxxGreaterThanToLessOrEqual),
  ("cxx_le_to_gt".toList, .cxxLessOrEqualToGreaterThan),
  ("cxx_le_to_lt".toList, .cxxLessOrEqualToLessThan),
  ("cxx_lt_to_ge".toList, .cxxLessThanToGreaterOrEqual),
  ("cxx_lt_to_le".toList, .cxxLessThanToLessOrEqual),
  ("cxx_add_assign_to_sub_assign".toList, .cxxAddAssignToSubAssign),
  ("cxx_sub_assign_to_add_assign".toList, .cxxSubAssignToAddAssign),
  ("cxx_mul_assign_to_div_assign".toList, .cxxMulAssignToDivAssign),
  ("cxx_div_assign_to_mul_assign".toList, .cxxDivAssignToMulAssign),
  ("cxx_rem_assign_to_div_assign".toList, .cxxRemAssignToDivAssign),
  ("cxx_and_to_or".toList, .cxxBitwiseAndToOr),
  ("cxx_or_to_and".toList, .cxxBitwiseOrToAnd),
  ("cxx_xor_to_or".toList, .cxxBitwiseXorToOr),
  ("cxx_lshift_to_rshift".toList, .cxxLShiftToRShift),
  ("cxx_rshift_to_lshift".toList, .cxxRShiftToLShift),
  ("cxx_and_assign_to_or_assign".toList, .cxxBitwiseAndAssignToOrAssign),
  ("cxx_or_assign_to_and_assign".toList, .cxxBitwiseOrAssignToAndAssign),
  ("cxx_xor_assign_to_or_assign".toList, .cxxBitwiseXorAssignToOrAssign),
  ("cxx_lshift_assign_to_rshift_assign".toList, .cxxLShiftAssignToRShiftAssign),
  ("cxx_rshift_assign_to_lshift_assign".toList, .cxxRShiftAssignToLShiftAssign),
  ("cxx_post_inc_to_post_dec".toList, .cxxPostIncToPostDec),
  ("cxx_post_dec_to_post_inc".toList, .cxxPostDecToPostInc),
  ("cxx_pre_inc_to_pre_dec".toList, .cxxPreIncToPreDec),
  ("cxx_pre_dec_to_pre_inc".toList, .cxxPreDecToPreInc),
  ("cxx_logical_and_to_or".toList, .cxxLogicalAndToOr),
  ("cxx_logical_or_to_and".toList, .cxxLogicalOrToAnd),
  ("cxx_remove_void_call".toList, .cxxRemoveVoidCall),
  ("cxx_minus_to_noop".toList, .cxxUnaryMinusToNoop),
  ("cxx_bitwise_not_to_noop".toList, .cxxBitwiseNotToNoop),
  ("cxx_remove_negation".toList, .cxxRemoveNegation),
  ("cxx_assign_const".toList, .cxxAssignConst),
  ("cxx_init_const".toList, .cxxInitConst),
  ("cxx_replace_scalar_call".toList, .cxxReplaceScalarCall)]

/-- `MutationMap::getIdentifier`; a kind outside the map has the empty identifier. -/
def getIdentifier (kind : MutatorKind) : Text :=
  ((MUTATIONS_MAP.find? fun entry => entry.2 = kind).map Prod.fst).getD []

namespace ASTMutationPoint
variable {μ : Type} (point : ASTMutationPoint μ)

def mutationIdentifier : Text :=
  point.identifier ++ ':' :: point.sourceFilePath ++ ':' :: toText point.beginLine ++
    ':' :: toText point.beginColumn

def mutationBinaryRecord : Text :=
  point.mutationIdentifier ++ ':' :: toText point.endLine ++ ':' :: toText point.endColumn ++ ":1".toList

end ASTMutationPoint

section
variable {μ : Type} (endOfToken : Location → Int32 × Int32)

/-- The begin of the mutated location and the end of its last token, both where they are spelled. -/
def getBeginEndMutationLocation (finding : Finding μ) : Location × (Int32 × Int32) :=
  let endLocation := if finding.locationIsExpression then finding.rangeEnd else finding.mutationLocation
  if !finding.mutationLocation.isMacroID then (finding.mutationLocation, endOfToken endLocation)
  else (finding.mutationLocation.getSpellingLoc, endOfToken endLocation.getSpellingLoc)

/-- `none` where the finding is not recorded. `endOfToken` is the line and column where the lexer ends a token. -/
def recordMutationPoint (finding : Finding μ) : Option (ASTMutationPoint μ) :=
  if finding.mutationLocation.isInSystemHeader then none
  else if finding.mutationLocation.isInSystemMacro then none
  else
    let (begin, endLine, endColumn) := getBeginEndMutationLocation endOfToken finding
    let sourceFilePath := begin.getFilename
    if sourceFilePath = [] then none
    else if "include/gtest".toList <:+: sourceFilePath then none
    else some {
      mutation := finding.mutation
      mutationType := finding.mutatorKind
      identifier := getIdentifier finding.mutatorKind
      sourceFilePath := sourceFilePath
      beginLine := begin.getExpansionLoc.line
      beginColumn := begin.getExpansionLoc.column
      endLine := endLine
      endColumn := endColumn }

end
end Mull.Frontend
