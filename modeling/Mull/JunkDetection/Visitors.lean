import Mull.Base.Closest
import Mull.JunkDetection.AST
import Mull.Mutators.Mutator

/-! The visitors that look for the expression that a mutation point stands for. -/

namespace Mull.JunkDetection
open Base

inductive Failure
  | nullDereference
  | assertion (condition : String)
deriving DecidableEq

section
variable {Loc : Type} [LinearOrder Loc]

structure VisitorParameters (Loc : Type) [LinearOrder Loc] where
  sourceManager : SourceManager Loc
  sourceLocation : Loc

abbrev Found (Loc : Type) [LinearOrder Loc] := Option (Stmt Loc)
abbrev VisitNode (Loc : Type) [LinearOrder Loc] := Visit Failure (Node Loc) (Found Loc)

/-- The expression that a node is a match with, if it is one. -/
abbrev Pick (Loc : Type) [LinearOrder Loc] := Option (Node Loc) → Node Loc → Option (Stmt Loc)

/-- The first match ends the traversal. -/
def visitOnce (pick : Pick Loc) : VisitNode Loc := fun parent node matchingExpression =>
  match pick parent node with
  | none => .ok (true, matchingExpression)
  | some stmt =>
    if matchingExpression.isSome then .error (.assertion "!matchingExpression && \"Already found\"") else .ok
      (false, some stmt)

def binaryOperatorAt (opcode : BinaryOperatorKind) (sourceLocation : Loc) : Pick Loc
  | _, .stmt stmt =>
    match stmt.stmtClass with
    | .binaryOperator own =>
      if own ≠ opcode then none else if stmt.getLoc = some sourceLocation then some stmt else none
    | _ => none
  | _, _ => none

def unaryOperatorAt (opcode : UnaryOperatorKind) (sourceLocation : Loc) : Pick Loc
  | _, .stmt stmt =>
    match stmt.stmtClass with
    | .unaryOperator own =>
      if own ≠ opcode then none else if stmt.getLoc = some sourceLocation then some stmt else none
    | _ => none
  | _, _ => none

def variableAt (sourceLocation : Loc) : Pick Loc
  | _, .varDecl decl =>
    if decl.hasDefinition = .declarationOnly then none
    else if decl.getInit.isNone then none
    else if decl.isConstQualified then none
    else if decl.getLocation = some sourceLocation then decl.getInit
    else none
  | _, _ => none

/-- `validCallExpr` -/
def voidCallAt (type : Option TypeClass) (stmt : Stmt Loc) (location : Option Loc)
    (sourceLocation : Loc) : Found Loc :=
  if type = some .void then if location = some sourceLocation then some stmt else none else none

/-- `VisitCallExpr`, of every kind of call. -/
def callBeginningAt (sourceLocation : Loc) : Pick Loc
  | _, .stmt stmt =>
    match stmt.stmtClass with
    | .callExpr type | .cxxMemberCallExpr type | .cxxOperatorCallExpr type =>
      voidCallAt type stmt stmt.getBegin sourceLocation
    | _ => none
  | _, _ => none

/-- `VisitCXXMemberCallExpr` and `VisitCXXOperatorCallExpr` -/
def callNamedAt (sourceLocation : Loc) : Pick Loc
  | _, .stmt stmt =>
    match stmt.stmtClass with
    | .cxxMemberCallExpr type | .cxxOperatorCallExpr type => voidCallAt type stmt stmt.getLoc sourceLocation
    | _ => none
  | _, _ => none

/-- A call of a class derived from `CallExpr` is visited as both. -/
def visitVoidCall (sourceLocation : Loc) : VisitNode Loc := fun parent node matchingExpression =>
  thenVisit (visitOnce (callBeginningAt sourceLocation) parent node matchingExpression)
    (visitOnce (callNamedAt sourceLocation) parent node)

def rangeLength (sourceManager : SourceManager Loc) (range : Segment Loc) : Nat :=
  sourceManager.getFileOffset range.last - sourceManager.getFileOffset range.first

def locationInRange (sourceManager : SourceManager Loc) (range : Segment Loc) (location : Loc) : Bool :=
  if sourceManager.isFileID location then
    let sameSourceFile := sourceManager.getFileID location == sourceManager.getFileID range.first
    let mutantOffset := sourceManager.getFileOffset location
    let inRange := decide (mutantOffset ≥ sourceManager.getFileOffset range.first) &&
      decide (mutantOffset ≤ sourceManager.getFileOffset range.last)
    sameSourceFile && inRange
  else false

def isRangeSmallerThanRange (sourceManager : SourceManager Loc) (first second : Option (Segment Loc)) :
    Except Failure Bool :=
  match first, second with
  | none, _ => .error (.assertion "first.isValid()")
  | _, none => .error (.assertion "second.isValid()")
  | some first, some second =>
    let firstLength := rangeLength sourceManager first
    let secondLength := rangeLength sourceManager second
    if firstLength < secondLength then .ok true
    else if secondLength < firstLength then .ok false
    else .ok true

/-- `InstructionRangeVisitor::visitRangeWithASTExpr` -/
def visitRangeWithASTExpr (parameters : VisitorParameters Loc) (stmt : Stmt Loc)
    (bestMatchingASTNode : Found Loc) :
    Except Failure (Found Loc) :=
  match stmt.getSourceRange with
  | none => .ok bestMatchingASTNode
  | some range =>
    if locationInRange parameters.sourceManager range parameters.sourceLocation then
      match bestMatchingASTNode with
      | none => .ok (some stmt)
      | some best => do
        let smaller ← isRangeSmallerThanRange parameters.sourceManager range best.getSourceRange
        pure (if smaller then some stmt else bestMatchingASTNode)
    else .ok bestMatchingASTNode

/-- Every match is offered, and the traversal goes on. -/
def visitRanges (pick : Pick Loc) (parameters : VisitorParameters Loc) :
    VisitNode Loc := fun parent node best =>
  match pick parent node with
  | none => .ok (true, best)
  | some stmt => do
    let best ← visitRangeWithASTExpr parameters stmt best
    pure (true, best)

def negation : Pick Loc
  | _, .stmt stmt => if stmt.stmtClass = .unaryOperator .lNot then some stmt else none
  | _, _ => none

/-- `handleCallExpr`, called for every kind of call. -/
def realCall : Pick Loc
  | _, .stmt stmt =>
    match stmt.stmtClass with
    | .callExpr type | .cxxMemberCallExpr type | .cxxOperatorCallExpr type =>
      if type = some .real then some stmt else none
    | _ => none
  | _, _ => none

/-- `handleCallExpr`, called once more. -/
def realDerivedCall : Pick Loc
  | _, .stmt stmt =>
    match stmt.stmtClass with
    | .cxxMemberCallExpr type | .cxxOperatorCallExpr type => if type = some .real then some stmt else none
    | _ => none
  | _, _ => none

def visitRealCall (parameters : VisitorParameters Loc) : VisitNode Loc := fun parent node best =>
  thenVisit (visitRanges realCall parameters parent node best)
    (visitRanges realDerivedCall parameters parent node)

/-- `ASTScalarMutationMatcher::isMutableExpr`: a literal that is returned or that is an operand. -/
def isMutableExpr (parent : Option (Node Loc)) (stmt : Stmt Loc) : Bool :=
  if stmt.stmtClass = .integerLiteral then
    match parent with
    | some (.stmt parent) =>
      match parent.stmtClass with
      | .returnStmt => true
      | .binaryOperator _ => true
      | _ => false
    | _ => false
  else false

def mutableScalar : Pick Loc
  | parent, .stmt stmt => if isMutableExpr parent stmt then some stmt else none
  | _, _ => none

def visitScalar : VisitNode Loc := fun parent node mutantStmt =>
  match mutableScalar parent node with
  | none => .ok (true, mutantStmt)
  | some stmt => .ok (true, some stmt)

inductive MutantVisitor
  | removeVoidFunctionVisitor
  | replaceCallVisitor
  | negateConditionVisitor
  | scalarValueVisitor
  | binaryVisitor (opcode : BinaryOperatorKind)
  | unaryVisitor (opcode : UnaryOperatorKind)
  | varDeclVisitor
deriving DecidableEq

def MutantVisitor.visit (visitor : MutantVisitor) (parameters : VisitorParameters Loc) : VisitNode Loc :=
  match visitor with
  | removeVoidFunctionVisitor => visitVoidCall parameters.sourceLocation
  | replaceCallVisitor => visitRealCall parameters
  | negateConditionVisitor => visitRanges negation parameters
  | scalarValueVisitor => visitScalar
  | binaryVisitor opcode => visitOnce (binaryOperatorAt opcode parameters.sourceLocation)
  | unaryVisitor opcode => visitOnce (unaryOperatorAt opcode parameters.sourceLocation)
  | varDeclVisitor => visitOnce (variableAt parameters.sourceLocation)

/-- The switch of `findMutantExpression`. -/
def visitorFor : MutatorKind → Option MutantVisitor
  | .cxxRemoveVoidCall => some .removeVoidFunctionVisitor
  | .cxxReplaceScalarCall => some .replaceCallVisitor
  | .negateMutator => some .negateConditionVisitor
  | .scalarValueMutator => some .scalarValueVisitor
  | .cxxLessThanToLessOrEqual => some (.binaryVisitor .lt)
  | .cxxLessOrEqualToLessThan => some (.binaryVisitor .le)
  | .cxxGreaterThanToGreaterOrEqual => some (.binaryVisitor .gt)
  | .cxxGreaterOrEqualToGreaterThan => some (.binaryVisitor .ge)
  | .cxxEqualToNotEqual => some (.binaryVisitor .eq)
  | .cxxNotEqualToEqual => some (.binaryVisitor .ne)
  | .cxxGreaterThanToLessOrEqual => some (.binaryVisitor .gt)
  | .cxxGreaterOrEqualToLessThan => some (.binaryVisitor .ge)
  | .cxxLessThanToGreaterOrEqual => some (.binaryVisitor .lt)
  | .cxxLessOrEqualToGreaterThan => some (.binaryVisitor .le)
  | .cxxAddToSub => some (.binaryVisitor .add)
  | .cxxAddAssignToSubAssign => some (.binaryVisitor .addAssign)
  | .cxxPreIncToPreDec => some (.unaryVisitor .preInc)
  | .cxxPostIncToPostDec => some (.unaryVisitor .postInc)
  | .cxxSubToAdd => some (.binaryVisitor .sub)
  | .cxxSubAssignToAddAssign => some (.binaryVisitor .subAssign)
  | .cxxPreDecToPreInc => some (.unaryVisitor .preDec)
  | .cxxPostDecToPostInc => some (.unaryVisitor .postDec)
  | .cxxMulToDiv => some (.binaryVisitor .mul)
  | .cxxMulAssignToDivAssign => some (.binaryVisitor .mulAssign)
  | .cxxDivToMul => some (.binaryVisitor .div)
  | .cxxDivAssignToMulAssign => some (.binaryVisitor .divAssign)
  | .cxxRemToDiv => some (.binaryVisitor .rem)
  | .cxxRemAssignToDivAssign => some (.binaryVisitor .remAssign)
  | .cxxBitwiseNotToNoop => some (.unaryVisitor .not)
  | .cxxUnaryMinusToNoop => some (.unaryVisitor .minus)
  | .cxxLShiftToRShift => some (.binaryVisitor .shl)
  | .cxxLShiftAssignToRShiftAssign => some (.binaryVisitor .shlAssign)
  | .cxxRShiftToLShift => some (.binaryVisitor .shr)
  | .cxxRShiftAssignToLShiftAssign => some (.binaryVisitor .shrAssign)
  | .cxxBitwiseAndToOr => some (.binaryVisitor .and)
  | .cxxBitwiseAndAssignToOrAssign => some (.binaryVisitor .andAssign)
  | .cxxBitwiseOrToAnd => some (.binaryVisitor .or)
  | .cxxBitwiseOrAssignToAndAssign => some (.binaryVisitor .orAssign)
  | .cxxBitwiseXorToOr => some (.binaryVisitor .xor)
  | .cxxBitwiseXorAssignToOrAssign => some (.binaryVisitor .xorAssign)
  | .cxxAssignConst => some (.binaryVisitor .assign)
  | .cxxInitConst => some .varDeclVisitor
  | .cxxLogicalAndToOr => some (.binaryVisitor .lAnd)
  | .cxxLogicalOrToAnd => some (.binaryVisitor .lOr)
  | .cxxRemoveNegation => some (.unaryVisitor .lNot)
  | .invalidKind => none

def findMutantExpression (mutatorKind : MutatorKind) (parameters : VisitorParameters Loc) (decl : Decl Loc) :
    Except Failure (Found Loc) :=
  match visitorFor mutatorKind with
  | none => .ok none
  | some visitor => do
    let (_, found) ← traverseAll (visitor.visit parameters) none decl.children none
    pure found

end

end Mull.JunkDetection
