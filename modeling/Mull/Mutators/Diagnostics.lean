import Mull.Mutators.Mutator

/-! What reports say about mutators. -/

namespace Mull.Mutator
open Base

def getDiagnostics : Mutator → Text
  | .negateConditionMutator => "Negated !x to x (or x to !x)".toList
  | .scalarValueMutator => "Replaced scalar with 0 or 42".toList
  | .removeVoidCall => "Removed the call to the function".toList
  | .replaceScalarCall => "Replaced call to a function with 42".toList
  | .numberAssignConst => "Replaced 'a = b' with 'a = 42'".toList
  | .numberInitConst => "Replaced 'T a = b' with 'T a = 42'".toList
  | .addAssignToSubAssign => "Replaced += with -=".toList
  | .subAssignToAddAssign => "Replaced -= with +=".toList
  | .mulAssignToDivAssign => "Replaced *= with /=".toList
  | .divAssignToMulAssign => "Replaced /= with *=".toList
  | .remAssignToDivAssign => "Replaced %= with /=".toList
  | .andAssignToOrAssign => "Replaced &= with |=".toList
  | .orAssignToAndAssign => "Replaced |= with &=".toList
  | .xorAssignToOrAssign => "Replaced ^= with |=".toList
  | .lShiftAssignToRShiftAssign => "Replaced <<= with >>=".toList
  | .rShiftAssignToLShiftAssign => "Replaced >>= with <<=".toList
  | .preIncToPreDec => "Replaced ++x with --x".toList
  | .postIncToPostDec => "Replaced x++ with x--".toList
  | .preDecToPreInc => "Replaced --x with ++x".toList
  | .postDecToPostInc => "Replaced x-- with x++".toList
  | .unaryMinusToNoop => "Replaced -x with x".toList
  | .addToSub => "Replaced + with -".toList
  | .subToAdd => "Replaced - with +".toList
  | .mulToDiv => "Replaced * with /".toList
  | .divToMul => "Replaced / with *".toList
  | .remToDiv => "Replaced % with /".toList
  | .bitwiseNotToNoop => "Replaced ~x with x".toList
  | .bitwiseAndToOr => "Replaced & with |".toList
  | .bitwiseOrToAnd => "Replaced | with &".toList
  | .xorToOr => "Replaced ^ with |".toList
  | .lShiftToRShift => "Replaced << with >>".toList
  | .rShiftToLShift => "Replaced >> with <<".toList
  | .logicalAndToOr => "Replaced && with ||".toList
  | .logicalOrToAnd => "Replaced || with &&".toList
  | .removeNegation => "Replaced !a with a".toList
  | .equalToNotEqual => "Replaced == with !=".toList
  | .notEqualToEqual => "Replaced != with ==".toList
  | .lessOrEqualToGreaterThan => "Replaced <= with >".toList
  | .lessThanToGreaterOrEqual => "Replaced < with >=".toList
  | .greaterOrEqualToLessThan => "Replaced >= with <".toList
  | .greaterThanToLessOrEqual => "Replaced > with <=".toList
  | .lessOrEqualToLessThan => "Replaced <= with <".toList
  | .lessThanToLessOrEqual => "Replaced < with <=".toList
  | .greaterOrEqualToGreaterThan => "Replaced >= with >".toList
  | .greaterThanToGreaterOrEqual => "Replaced > with >=".toList

def getReplacement : Mutator → Text
  | .negateConditionMutator => "x or !x".toList
  | .scalarValueMutator => "0 or 42".toList
  | .removeVoidCall => "".toList
  | .replaceScalarCall => "42".toList
  | .numberAssignConst => "42".toList
  | .numberInitConst => "42".toList
  | .addAssignToSubAssign => "-=".toList
  | .subAssignToAddAssign => "+=".toList
  | .mulAssignToDivAssign => "/=".toList
  | .divAssignToMulAssign => "*=".toList
  | .remAssignToDivAssign => "/=".toList
  | .andAssignToOrAssign => "|=".toList
  | .orAssignToAndAssign => "&=".toList
  | .xorAssignToOrAssign => "|=".toList
  | .lShiftAssignToRShiftAssign => ">>=".toList
  | .rShiftAssignToLShiftAssign => "<<=".toList
  | .preIncToPreDec => "--".toList
  | .postIncToPostDec => "--".toList
  | .preDecToPreInc => "++".toList
  | .postDecToPostInc => "++".toList
  | .unaryMinusToNoop => "".toList
  | .addToSub => "-".toList
  | .subToAdd => "+".toList
  | .mulToDiv => "/".toList
  | .divToMul => "*".toList
  | .remToDiv => "/".toList
  | .bitwiseNotToNoop => "".toList
  | .bitwiseAndToOr => "|".toList
  | .bitwiseOrToAnd => "&".toList
  | .xorToOr => "|".toList
  | .lShiftToRShift => ">>".toList
  | .rShiftToLShift => ">>".toList
  | .logicalAndToOr => "||".toList
  | .logicalOrToAnd => "&&".toList
  | .removeNegation => "".toList
  | .equalToNotEqual => "!=".toList
  | .notEqualToEqual => "==".toList
  | .lessOrEqualToGreaterThan => ">".toList
  | .lessThanToGreaterOrEqual => ">=".toList
  | .greaterOrEqualToLessThan => "<".toList
  | .greaterThanToLessOrEqual => "<=".toList
  | .lessOrEqualToLessThan => "<".toList
  | .lessThanToLessOrEqual => "<=".toList
  | .greaterOrEqualToGreaterThan => ">".toList
  | .greaterThanToGreaterOrEqual => ">=".toList

end Mull.Mutator
