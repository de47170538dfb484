import Mull.Base.Decimal

/-! The mutators, one for each class, with their identifiers and kinds. -/

namespace Mull
open Base

inductive MutatorKind
  | invalidKind
  | negateMutator
  | scalarValueMutator
  | cxxRemoveVoidCall
  | cxxReplaceScalarCall
  | cxxAssignConst
  | cxxInitConst
  | cxxAddAssignToSubAssign
  | cxxSubAssignToAddAssign
  | cxxMulAssignToDivAssign
  | cxxDivAssignToMulAssign
  | cxxRemAssignToDivAssign
  | cxxBitwiseAndAssignToOrAssign
  | cxxBitwiseOrAssignToAndAssign
  | cxxBitwiseXorAssignToOrAssign
  | cxxLShiftAssignToRShiftAssign
  | cxxRShiftAssignToLShiftAssign
  | cxxPreIncToPreDec
  | cxxPostIncToPostDec
  | cxxPreDecToPreInc
  | cxxPostDecToPostInc
  | cxxUnaryMinusToNoop
  | cxxAddToSub
  | cxxSubToAdd
  | cxxMulToDiv
  | cxxDivToMul
  | cxxRemToDiv
  | cxxBitwiseNotToNoop
  | cxxBitwiseAndToOr
  | cxxBitwiseOrToAnd
  | cxxBitwiseXorToOr
  | cxxLShiftToRShift
  | cxxRShiftToLShift
  | cxxLogicalAndToOr
  | cxxLogicalOrToAnd
  | cxxRemoveNegation
  | cxxEqualToNotEqual
  | cxxNotEqualToEqual
  | cxxLessOrEqualToGreaterThan
  | cxxLessThanToGreaterOrEqual
  | cxxGreaterOrEqualToLessThan
  | cxxGreaterThanToLessOrEqual
  | cxxLessOrEqualToLessThan
  | cxxLessThanToLessOrEqual
  | cxxGreaterOrEqualToGreaterThan
  | cxxGreaterThanToGreaterOrEqual
deriving DecidableEq

/-- The mutator classes, in the order `MutatorsFactory::init` registers them. -/
inductive Mutator
  | negateConditionMutator
  | scalarValueMutator
  | removeVoidCall
  | replaceScalarCall
  | numberAssignConst
  | numberInitConst
  | addAssignToSubAssign
  | subAssignToAddAssign
  | mulAssignToDivAssign
  | divAssignToMulAssign
  | remAssignToDivAssign
  | andAssignToOrAssign
  | orAssignToAndAssign
  | xorAssignToOrAssign
  | lShiftAssignToRShiftAssign
  | rShiftAssignToLShiftAssign
  | preIncToPreDec
  | postIncToPostDec
  | preDecToPreInc
  | postDecToPostInc
  | unaryMinusToNoop
  | addToSub
  | subToAdd
  | mulToDiv
  | divToMul
  | remToDiv
  | bitwiseNotToNoop
  | bitwiseAndToOr
  | bitwiseOrToAnd
  | xorToOr
  | lShiftToRShift
  | rShiftToLShift
  | logicalAndToOr
  | logicalOrToAnd
  | removeNegation
  | equalToNotEqual
  | notEqualToEqual
  | lessOrEqualToGreaterThan
  | lessThanToGreaterOrEqual
  | greaterOrEqualToLessThan
  | greaterThanToLessOrEqual
  | lessOrEqualToLessThan
  | lessThanToLessOrEqual
  | greaterOrEqualToGreaterThan
  | greaterThanToGreaterOrEqual
deriving DecidableEq

namespace Mutator

def getUniqueIdentifier : Mutator → Text
  | .negateConditionMutator => "negate_mutator".toList
  | .scalarValueMutator => "scalar_value_mutator".toList
  | .removeVoidCall => "cxx_remove_void_call".toList
  | .replaceScalarCall => "cxx_replace_scalar_call".toList
  | .numberAssignConst => "cxx_assign_const".toList
  | .numberInitConst => "cxx_init_const".toList
  | .addAssignToSubAssign => "cxx_add_assign_to_sub_assign".toList
  | .subAssignToAddAssign => "cxx_sub_assign_to_add_assign".toList
  | .mulAssignToDivAssign => "cxx_mul_assign_to_div_assign".toList
  | .divAssignToMulAssign => "cxx_div_assign_to_mul_assign".toList
  | .remAssignToDivAssign => "cxx_rem_assign_to_div_assign".toList
  | .andAssignToOrAssign => "cxx_and_assign_to_or_assign".toList
  | .orAssignToAndAssign => "cxx_or_assign_to_and_assign".toList
  | .xorAssignToOrAssign => "cxx_xor_assign_to_or_assign".toList
  | .lShiftAssignToRShiftAssign => "cxx_lshift_assign_to_rshift_assign".toList
  | .rShiftAssignToLShiftAssign => "cxx_rshift_assign_to_lshift_assign".toList
  | .preIncToPreDec => "cxx_pre_inc_to_pre_dec".toList
  | .postIncToPostDec => "cxx_post_inc_to_post_dec".toList
  | .preDecToPreInc => "cxx_pre_dec_to_pre_inc".toList
  | .postDecToPostInc => "cxx_post_dec_to_post_inc".toList
  | .unaryMinusToNoop => "cxx_minus_to_noop".toList
  | .addToSub => "cxx_add_to_sub".toList
  | .subToAdd => "cxx_sub_to_add".toList
  | .mulToDiv => "cxx_mul_to_div".toList
  | .divToMul => "cxx_div_to_mul".toList
  | .remToDiv => "cxx_rem_to_div".toList
  | .bitwiseNotToNoop => "cxx_bitwise_not_to_noop".toList
  | .bitwiseAndToOr => "cxx_and_to_or".toList
  | .bitwiseOrToAnd => "cxx_or_to_and".toList
  | .xorToOr => "cxx_xor_to_or".toList
  | .lShiftToRShift => "cxx_lshift_to_rshift".toList
  | .rShiftToLShift => "cxx_rshift_to_lshift".toList
  | .logicalAndToOr => "cxx_logical_and_to_or".toList
  | .logicalOrToAnd => "cxx_logical_or_to_and".toList
  | .removeNegation => "cxx_remove_negation".toList
  | .equalToNotEqual => "cxx_eq_to_ne".toList
  | .notEqualToEqual => "cxx_ne_to_eq".toList
  | .lessOrEqualToGreaterThan => "cxx_le_to_gt".toList
  | .lessThanToGreaterOrEqual => "cxx_lt_to_ge".toList
  | .greaterOrEqualToLessThan => "cxx_ge_to_lt".toList
  | .greaterThanToLessOrEqual => "cxx_gt_to_le".toList
  | .lessOrEqualToLessThan => "cxx_le_to_lt".toList
  | .lessThanToLessOrEqual => "cxx_lt_to_le".toList
  | .greaterOrEqualToGreaterThan => "cxx_ge_to_gt".toList
  | .greaterThanToGreaterOrEqual => "cxx_gt_to_ge".toList

def mutatorKind : Mutator → MutatorKind
  | .negateConditionMutator => .negateMutator
  | .scalarValueMutator => .scalarValueMutator
  | .removeVoidCall => .cxxRemoveVoidCall
  | .replaceScalarCall => .cxxReplaceScalarCall
  | .numberAssignConst => .cxxAssignConst
  | .numberInitConst => .cxxInitConst
  | .addAssignToSubAssign => .cxxAddAssignToSubAssign
  | .subAssignToAddAssign => .cxxSubAssignToAddAssign
  | .mulAssignToDivAssign => .cxxMulAssignToDivAssign
  | .divAssignToMulAssign => .cxxDivAssignToMulAssign
  | .remAssignToDivAssign => .cxxRemAssignToDivAssign
  | .andAssignToOrAssign => .cxxBitwiseAndAssignToOrAssign
  | .orAssignToAndAssign => .cxxBitwiseOrAssignToAndAssign
  | .xorAssignToOrAssign => .cxxBitwiseXorAssignToOrAssign
  | .lShiftAssignToRShiftAssign => .cxxLShiftAssignToRShiftAssign
  | .rShiftAssignToLShiftAssign => .cxxRShiftAssignToLShiftAssign
  | .preIncToPreDec => .cxxPreIncToPreDec
  | .postIncToPostDec => .cxxPostIncToPostDec
  | .preDecToPreInc => .cxxPreDecToPreInc
  | .postDecToPostInc => .cxxPostDecToPostInc
  | .unaryMinusToNoop => .cxxUnaryMinusToNoop
  | .addToSub => .cxxAddToSub
  | .subToAdd => .cxxSubToAdd
  | .mulToDiv => .cxxMulToDiv
  | .divToMul => .cxxDivToMul
  | .remToDiv => .cxxRemToDiv
  | .bitwiseNotToNoop => .cxxBitwiseNotToNoop
  | .bitwiseAndToOr => .cxxBitwiseAndToOr
  | .bitwiseOrToAnd => .cxxBitwiseOrToAnd
  | .xorToOr => .cxxBitwiseXorToOr
  | .lShiftToRShift => .cxxLShiftToRShift
  | .rShiftToLShift => .cxxRShiftToLShift
  | .logicalAndToOr => .cxxLogicalAndToOr
  | .logicalOrToAnd => .cxxLogicalOrToAnd
  | .removeNegation => .cxxRemoveNegation
  | .equalToNotEqual => .cxxEqualToNotEqual
  | .notEqualToEqual => .cxxNotEqualToEqual
  | .lessOrEqualToGreaterThan => .cxxLessOrEqualToGreaterThan
  | .lessThanToGreaterOrEqual => .cxxLessThanToGreaterOrEqual
  | .greaterOrEqualToLessThan => .cxxGreaterOrEqualToLessThan
  | .greaterThanToLessOrEqual => .cxxGreaterThanToLessOrEqual
  | .lessOrEqualToLessThan => .cxxLessOrEqualToLessThan
  | .lessThanToLessOrEqual => .cxxLessThanToLessOrEqual
  | .greaterOrEqualToGreaterThan => .cxxGreaterOrEqualToGreaterThan
  | .greaterThanToGreaterOrEqual => .cxxGreaterThanToGreaterOrEqual

theorem getUniqueIdentifier_word (mutator : Mutator) :
    (!mutator.getUniqueIdentifier.isEmpty &&
      mutator.getUniqueIdentifier.all fun c => c.isLower || c == '_') = true := by
  cases mutator <;> decide

theorem getUniqueIdentifier_ne_nil (mutator : Mutator) : mutator.getUniqueIdentifier ≠ [] := by
  intro empty
  have word := mutator.getUniqueIdentifier_word
  simp [empty] at word

theorem getUniqueIdentifier_free {c : Char} (letter : c.isLower = false) (underscore : c ≠ '_')
    (mutator : Mutator) : c ∉ mutator.getUniqueIdentifier := by
  intro mem
  have word := List.all_eq_true.mp (Bool.and_eq_true_iff.mp mutator.getUniqueIdentifier_word).2 c mem
  simp [letter, underscore] at word

end Mutator

end Mull
