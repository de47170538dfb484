import Mull.Frontend.ASTMutation
import Mull.Frontend.ClangASTMutator

/-! `MullASTMutator` and `MullASTConsumer`: the mutations of a function are found and then performed. -/

namespace Mull.Frontend
open Base

abbrev Point := ASTMutationPoint StmtMutation

section
variable (context : ASTContext) (point : Point)

def performUnaryOperatorOpcodeMutation (replacementOpCode : UnaryOpcode) :
    Except PerformFailure ASTContext := do
  let oldUnaryOperator ← deref (context.node? point.mutation.mutableStmt)
  let subExpr ← deref oldUnaryOperator.children[0]?
  let (newUnaryOperator, context) := context.createUnaryOperator replacementOpCode subExpr
    oldUnaryOperator.type
    oldUnaryOperator.valueKind
  replaceExpression context point.mutation.mutableStmt newUnaryOperator point.mutationIdentifier

def performUnaryOperatorRemovalMutation (unaryOperator : Ref) : Except PerformFailure ASTContext := do
  let oldUnaryOperator ← deref (context.node? unaryOperator)
  let subExpr ← deref oldUnaryOperator.children[0]?
  replaceExpression context unaryOperator subExpr point.mutationIdentifier

def performBinaryMutation (replacementOpCode : BinaryOpcode) : Except PerformFailure ASTContext := do
  let oldBinaryOperator ← deref (context.node? point.mutation.mutableStmt)
  let lhs ← deref oldBinaryOperator.children[0]?
  let rhs ← deref oldBinaryOperator.children[1]?
  let (newBinaryOperator, context) :=
    match oldBinaryOperator.kind with
    | .compoundAssignOperator _ computationLHSType computationResultType =>
      context.createCompoundAssignOperator replacementOpCode lhs rhs oldBinaryOperator.type
        oldBinaryOperator.valueKind
        computationLHSType computationResultType
    | _ =>
      context.createBinaryOperator replacementOpCode lhs rhs oldBinaryOperator.type
        oldBinaryOperator.valueKind
  replaceExpression context point.mutation.mutableStmt newBinaryOperator point.mutationIdentifier

def performRemoveVoidMutation : Except PerformFailure ASTContext :=
  replaceStatement context point.mutation.mutableStmt none point.mutationIdentifier

def replaceByLiteral (oldExpr : Ref) : Except PerformFailure ASTContext := do
  let old ← deref (context.node? oldExpr)
  if old.type.isNumeric then
    let (replacementLiteral, context) := context.createLiteral 42 old.type
    replaceExpression context oldExpr replacementLiteral point.mutationIdentifier
  else .error .notImplemented

def performReplaceScalarMutation (callExpr : Ref) : Except PerformFailure ASTContext :=
  replaceByLiteral context point callExpr

def performReplaceNumericAssignmentMutation (assignmentBinaryOperator : Ref) :
    Except PerformFailure ASTContext := do
  let assignment ← deref (context.node? assignmentBinaryOperator)
  let oldAssignedExpr ← deref assignment.children[1]?
  replaceByLiteral context point oldAssignedExpr

def performReplaceNumericInitAssignmentMutation (varDecl : Ref) : Except PerformFailure ASTContext := do
  let node ← deref (context.node? varDecl)
  if node.kind = .varDecl .var then
    let oldAssignedExpr ← deref node.children[0]?
    replaceByLiteral context point oldAssignedExpr
  else .error .notVar

def performMutation : Except PerformFailure ASTContext :=
  match point.mutation.mutation with
  | .binaryMutation replacementOpCode => performBinaryMutation context point replacementOpCode
  | .removeVoidMutation => performRemoveVoidMutation context point
  | .replaceScalarCallMutation callExpr => performReplaceScalarMutation context point callExpr
  | .unaryOperatorOpcodeMutation _ replacementOpCode =>
    performUnaryOperatorOpcodeMutation context point replacementOpCode
  | .unaryOperatorRemovalMutation unaryOperator =>
    performUnaryOperatorRemovalMutation context point unaryOperator
  | .replaceNumericAssignmentMutation assignment =>
    performReplaceNumericAssignmentMutation context point assignment
  | .replaceNumericInitAssignmentMutation varDecl =>
    performReplaceNumericInitAssignmentMutation context point varDecl

/-- A mutation that fails ends the compiler. -/
def performOrAbort : Option ASTContext := (performMutation context point).toOption

end

/-- The functions that are searched. -/
def TopLevelDecl.isSearched (decl : TopLevelDecl) : Bool :=
  decl.isFunction && decl.name != "main".toList && !decl.location.isInSystemHeader &&
    !decide ("include/gtest".toList <:+: decl.location.getFilename)

def TopLevelDecl.refs (decl : TopLevelDecl) (d : Nat) : List Ref :=
  (List.range decl.nodes.length).map (Ref.parsed d)

section
variable (isValidMutation : MutatorKind → Bool) (endOfToken : Location → Int32 × Int32)

def handleDecl (context : ASTContext) (numbered : TopLevelDecl × Nat) : Option ASTContext :=
  if numbered.1.isSearched then do
    let astMutations ← traverseFunctionDecl isValidMutation endOfToken context.node?
      (numbered.1.refs numbered.2)
    astMutations.foldlM performOrAbort context
  else some context

/-- The declarations of a group are handled when all of them are parsed; the first has the given number. -/
def handleTopLevelDecl (context : ASTContext) (first : Nat) (DG : DeclGroupRef) : Option ASTContext :=
  (DG.zipIdx first).foldlM (handleDecl isValidMutation endOfToken)
    { context with parsed := context.parsed ++ (DG.zipIdx first).flatMap fun numbered => numbered.1.refs numbered.2 }

def handleGroups (context : ASTContext) (first : Nat) : List DeclGroupRef → Option ASTContext
  | [] => some context
  | DG :: groups => do
    let context ← handleTopLevelDecl isValidMutation endOfToken context first DG
    handleGroups context (first + DG.length) groups

def parseAST (unit : List DeclGroupRef) : Option ASTContext :=
  handleGroups isValidMutation endOfToken ⟨source unit, [], 0, none⟩ 0 unit

end
end Mull.Frontend
