import Mathlib.Logic.Function.Basic
import Mull.Frontend.ClangAST

/-! `ClangASTMutator` and `ASTNodeFactory`: a node is created, its parent is looked up and rewired. -/

namespace Mull.Frontend
open Base

/-- How performing a mutation ends the compiler: at a null pointer, or at one of the assertions. -/
inductive PerformFailure
  | nullDereference
  | notImplemented
  | notVar
  | errorNotImplemented
  | nullParentStmt
  | notAmongChildren
  | shouldNotReachHere
deriving DecidableEq

def deref {α : Type} : Option α → Except PerformFailure α
  | some a => .ok a
  | none => .error .nullDereference

theorem deref_bind {α β : Type} (a : α) (f : α → Except PerformFailure β) :
    (deref (some a) >>= f) = f a := rfl

/-- The AST so far: its nodes, those that are parsed, and the parent map once it has been asked for. -/
structure ASTContext where
  node? : Heap
  parsed : List Ref
  createdCount : Nat
  parentMap : Option (List (Ref × Ref))

namespace ASTContext
variable (context : ASTContext)

def create (node : Node Ref) : Ref × ASTContext :=
  (.created context.createdCount, { context with
    node? := Function.update context.node? (.created context.createdCount) (some node)
    createdCount := context.createdCount + 1 })

def write (ref : Ref) (slots : List (Slot Ref)) : ASTContext :=
  { context with node? := fun other =>
      if other = ref then (context.node? ref).map fun node =>
        { node with slots := slots } else context.node? other }

theorem write_self (ref : Ref) (slots : List (Slot Ref)) : (context.write ref slots).node? ref =
    (context.node? ref).map fun node => { node with slots := slots } := if_pos rfl

theorem write_other {ref other : Ref} {slots : List (Slot Ref)} (different : other ≠ ref) :
    (context.write ref slots).node? other = context.node? other := if_neg different

def createUnaryOperator (opcode : UnaryOpcode) (expr : Ref) (resultType : QualType) (valueKind : ValueKind) :
    Ref × ASTContext :=
  context.create { kind := .unaryOperator opcode, type := resultType, valueKind, slots := [⟨.expr, expr⟩] }

def createBinaryOperator (opcode : BinaryOpcode) (lhs rhs : Ref) (resultType : QualType)
    (valueKind : ValueKind) :
    Ref × ASTContext :=
  context.create
    { kind := .binaryOperator opcode, type := resultType, valueKind, slots := [⟨.expr, lhs⟩, ⟨.expr, rhs⟩] }

def createCompoundAssignOperator (opcode : BinaryOpcode) (lhs rhs : Ref) (resultType : QualType)
    (valueKind : ValueKind) (compLHSType compResultType : QualType) : Ref × ASTContext :=
  context.create
    { kind := .compoundAssignOperator opcode compLHSType compResultType, type := resultType, valueKind,
      slots := [⟨.expr, lhs⟩, ⟨.expr, rhs⟩] }

/-- `createIntegerLiteral` and `createFloatLiteral`. -/
def createLiteral (value : Int) (type : QualType) : Ref × ASTContext :=
  context.create { kind := .literal value, type, valueKind := .rValue, slots := [] }

def createCompoundStmt (stmts : List Ref) : Ref × ASTContext :=
  context.create
    { kind := .compoundStmt, type := .void, valueKind := .rValue, slots := stmts.map (⟨.stmt, ·⟩) }

def createMutatedExpression (oldExpr newExpr : Ref) (identifier : Text) :
    Except PerformFailure (Ref × ASTContext) := do
  let new ← deref (context.node? newExpr)
  .ok (context.create
    { kind := .conditionalOperator identifier, type := new.type, valueKind := new.valueKind,
      slots := [⟨.expr, newExpr⟩, ⟨.expr, oldExpr⟩] })

def createMutatedStatement (oldStmt : Ref) (newStmt : Option Ref) (identifier : Text) : Ref × ASTContext :=
  let (compoundThenStmt, context) := context.createCompoundStmt newStmt.toList
  let (compoundElseStmt, context) := context.createCompoundStmt [oldStmt]
  context.create
    { kind := .ifStmt identifier, type := .void, valueKind := .rValue,
      slots := [⟨.stmt, compoundThenStmt⟩, ⟨.stmt, compoundElseStmt⟩] }

def buildParentMap : List (Ref × Ref) :=
  context.parsed.flatMap fun parent =>
    ((context.node? parent).map fun node => node.children.map fun child => (child, parent)).getD []

def getParents (ref : Ref) : Option Ref × ASTContext :=
  let parentMap := context.parentMap.getD context.buildParentMap
  (parentMap.lookup ref, { context with parentMap := some parentMap })

end ASTContext

/-- `std::find` among the children; none at the end. -/
def setChild (oldChild newChild : Ref) : List (Slot Ref) → Option (List (Slot Ref))
  | [] => none
  | slot :: slots =>
    if slot.child = oldChild then some (⟨slot.expects, newChild⟩ :: slots)
    else (setChild oldChild newChild slots).map (slot :: ·)

/-- The loops of `replaceExpression` and `replaceStatement`, which return at the first parent; only an
expression may be the initial value of a variable. -/
def replaceChild (context : ASTContext) (isExpression : Bool) (oldStmt newStmt : Ref) :
    Except PerformFailure ASTContext :=
  let (parent, context) := context.getParents oldStmt
  match parent with
  | none => .error .shouldNotReachHere
  | some parent => do
    let node ← deref (context.node? parent)
    if node.kind.isStmt then
      match setChild oldStmt newStmt node.slots with
      | none => .error .notAmongChildren
      | some slots => .ok (context.write parent slots)
    else if isExpression && node.kind.isVarDecl then
      .ok (context.write parent (node.slots.map fun slot => ⟨slot.expects, newStmt⟩))
    else .error (if isExpression then .errorNotImplemented else .nullParentStmt)

theorem replaceChild_missing {context : ASTContext} {isExpression : Bool} {oldStmt newStmt : Ref}
    (missing : (context.parentMap.getD context.buildParentMap).lookup oldStmt = none) :
    replaceChild context isExpression oldStmt newStmt = .error .shouldNotReachHere := by
  rw [replaceChild, ASTContext.getParents]
  dsimp only
  rw [missing]

theorem replaceChild_found {context : ASTContext} {isExpression : Bool} {oldStmt newStmt parent : Ref}
    {node : Node Ref} (found : (context.parentMap.getD context.buildParentMap).lookup oldStmt = some parent)
    (read : context.node? parent = some node) :
    replaceChild context isExpression oldStmt newStmt =
      if node.kind.isStmt = true then
        match setChild oldStmt newStmt node.slots with
        | none => .error .notAmongChildren
        | some slots => .ok ((context.getParents oldStmt).2.write parent slots)
      else if (isExpression && node.kind.isVarDecl) = true then
        .ok ((context.getParents oldStmt).2.write parent (node.slots.map fun slot => ⟨slot.expects, newStmt⟩))
      else .error (if isExpression then .errorNotImplemented else .nullParentStmt) := by
  rw [replaceChild, ASTContext.getParents]
  dsimp only
  rw [found]
  dsimp only
  rw [read, deref_bind]

def replaceExpression (context : ASTContext) (oldExpr newExpr : Ref) (identifier : Text) :
    Except PerformFailure ASTContext := do
  let (conditionalExpr, context) ← context.createMutatedExpression oldExpr newExpr identifier
  replaceChild context true oldExpr conditionalExpr

def replaceStatement (context : ASTContext) (oldStmt : Ref) (newStmt : Option Ref) (identifier : Text) :
    Except PerformFailure ASTContext :=
  let (ifCondition, context) := context.createMutatedStatement oldStmt newStmt identifier
  replaceChild context false oldStmt ifCondition

end Mull.Frontend
