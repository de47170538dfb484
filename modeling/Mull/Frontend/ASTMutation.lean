import Mull.Frontend.ClangAST

/-! `ASTMutationsSearchVisitor`: which mutations it finds at a node. -/

namespace Mull.Frontend
open Base

inductive ASTMutation
  | binaryMutation (replacementOpCode : BinaryOpcode)
  | removeVoidMutation
  | replaceScalarCallMutation (callExpr : Ref)
  | unaryOperatorOpcodeMutation (unaryOperator : Ref) (replacementOpCode : UnaryOpcode)
  | unaryOperatorRemovalMutation (unaryOperator : Ref)
  | replaceNumericAssignmentMutation (assignmentBinaryOperator : Ref)
  | replaceNumericInitAssignmentMutation (varDecl : Ref)
deriving DecidableEq

structure StmtMutation where
  mutation : ASTMutation
  mutableStmt : Ref
deriving DecidableEq

def BinaryMutations : List (BinaryOpcode × MutatorKind × BinaryOpcode) := [
  (.add, .cxxAddToSub, .sub),
  (.sub, .cxxSubToAdd, .add),
  (.mul, .cxxMulToDiv, .div),
  (.div, .cxxDivToMul, .mul),
  (.rem, .cxxRemToDiv, .div),
  (.addAssign, .cxxAddAssignToSubAssign, .subAssign),
  (.subAssign, .cxxSubAssignToAddAssign, .addAssign),
  (.mulAssign, .cxxMulAssignToDivAssign, .divAssign),
  (.divAssign, .cxxDivAssignToMulAssign, .mulAssign),
  (.remAssign, .cxxRemAssignToDivAssign, .divAssign),
  (.eq, .cxxEqualToNotEqual, .ne),
  (.ne, .cxxNotEqualToEqual, .eq),
  (.gt, .cxxGreaterThanToLessOrEqual, .le),
  (.lt, .cxxLessThanToGreaterOrEqual, .ge),
  (.ge, .cxxGreaterOrEqualToLessThan, .lt),
  (.le, .cxxLessOrEqualToGreaterThan, .gt),
  (.gt, .cxxGreaterThanToGreaterOrEqual, .ge),
  (.lt, .cxxLessThanToLessOrEqual, .le),
  (.ge, .cxxGreaterOrEqualToGreaterThan, .gt),
  (.le, .cxxLessOrEqualToLessThan, .lt),
  (.and, .cxxBitwiseAndToOr, .or),
  (.or, .cxxBitwiseOrToAnd, .and),
  (.xor, .cxxBitwiseXorToOr, .or),
  (.shl, .cxxLShiftToRShift, .shr),
  (.shr, .cxxRShiftToLShift, .shl),
  (.andAssign, .cxxBitwiseAndAssignToOrAssign, .orAssign),
  (.orAssign, .cxxBitwiseOrAssignToAndAssign, .andAssign),
  (.xorAssign, .cxxBitwiseXorAssignToOrAssign, .orAssign),
  (.shlAssign, .cxxLShiftAssignToRShiftAssign, .shrAssign),
  (.shrAssign, .cxxRShiftAssignToLShiftAssign, .shlAssign),
  (.lAnd, .cxxLogicalAndToOr, .lOr),
  (.lOr, .cxxLogicalOrToAnd, .lAnd)]

def QualType.isNumeric (type : QualType) : Bool := type == .int || type == .float || type == .double

section
variable (isValidMutation : MutatorKind → Bool) (heap : Heap) (ref : Ref) (node : Node Ref)

/-- What `VisitUnaryOperator` compares with, one opcode after the other. -/
def unaryMutation : UnaryOpcode → Option (MutatorKind × ASTMutation)
  | .postDec => some (.cxxPostDecToPostInc, .unaryOperatorOpcodeMutation ref .postInc)
  | .postInc => some (.cxxPostIncToPostDec, .unaryOperatorOpcodeMutation ref .postDec)
  | .preInc => some (.cxxPreIncToPreDec, .unaryOperatorOpcodeMutation ref .preDec)
  | .preDec => some (.cxxPreDecToPreInc, .unaryOperatorOpcodeMutation ref .preInc)
  | .lNot => some (.cxxRemoveNegation, .unaryOperatorRemovalMutation ref)
  | .minus => some (.cxxUnaryMinusToNoop, .unaryOperatorRemovalMutation ref)
  | .not => some (.cxxBitwiseNotToNoop, .unaryOperatorRemovalMutation ref)
  | _ => none

def visitUnaryOperator (opcode : UnaryOpcode) : List (Finding StmtMutation) :=
  match unaryMutation ref opcode with
  | none => []
  | some (mutatorKind, mutation) =>
    if isValidMutation mutatorKind then
      [⟨mutatorKind, ⟨mutation, ref⟩, node.locations.operatorLoc, node.locations.endLoc, false⟩]
    else []

def visitBinaryOperator (opcode : BinaryOpcode) : List (Finding StmtMutation) :=
  if opcode = .assign ∧ isValidMutation .cxxAssignConst then
    match node.children[1]? >>= heap with
    | none => []
    | some rhs =>
      if rhs.type.isNumeric then
        [⟨.cxxAssignConst, ⟨.replaceNumericAssignmentMutation ref, ref⟩, node.locations.operatorLoc,
          node.locations.endLoc, true⟩]
      else []
  else
    (BinaryMutations.filter fun mutation => mutation.1 = opcode ∧
      isValidMutation mutation.2.1).map fun mutation =>
      ⟨mutation.2.1, ⟨.binaryMutation mutation.2.2, ref⟩, node.locations.operatorLoc,
        node.locations.endLoc, false⟩

def visitCallExpr : List (Finding StmtMutation) :=
  (if node.type = .void ∧ isValidMutation .cxxRemoveVoidCall then
    [⟨.cxxRemoveVoidCall, ⟨.removeVoidMutation, ref⟩, node.locations.beginLoc, node.locations.endLoc, true⟩]
  else []) ++
  if node.type = .int ∧ isValidMutation .cxxReplaceScalarCall then
    [⟨.cxxReplaceScalarCall, ⟨.replaceScalarCallMutation ref, ref⟩, node.locations.beginLoc,
      node.locations.endLoc, true⟩]
  else []

/-- none where a variable without an initial value is asked for the location of that value. -/
def visitVarDecl (kind : VarKind) : Option (List (Finding StmtMutation)) :=
  if kind = .parmVar then some []
  else if isValidMutation .cxxInitConst ∧ node.type.isNumeric then do
    let init ← node.children[0]?
    let initNode ← heap init
    some [⟨.cxxInitConst, ⟨.replaceNumericInitAssignmentMutation ref, init⟩, initNode.locations.exprLoc,
      initNode.locations.endLoc, true⟩]
  else some []

def visit : Option (List (Finding StmtMutation)) :=
  match node.kind with
  | .unaryOperator opcode => some (visitUnaryOperator isValidMutation ref node opcode)
  | .binaryOperator opcode | .compoundAssignOperator opcode _ _ =>
    some (visitBinaryOperator isValidMutation heap ref node opcode)
  | .callExpr => some (visitCallExpr isValidMutation ref node)
  | .varDecl kind => visitVarDecl isValidMutation heap ref node kind
  | _ => some []

end

/-- The points of a function, in the order in which its nodes are visited. -/
def traverseFunctionDecl (isValidMutation : MutatorKind → Bool)
    (endOfToken : Location → Int32 × Int32) (heap : Heap)
    (refs : List Ref) : Option (List (ASTMutationPoint StmtMutation)) := do
  let findings ← refs.mapM fun ref => heap ref >>= visit isValidMutation heap ref
  some (findings.flatten.filterMap (recordMutationPoint endOfToken))

end Mull.Frontend
