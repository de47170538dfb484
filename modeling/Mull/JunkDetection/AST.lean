import Mull.Base.Segments
import Mull.Base.Traversal
import Mull.SourceLocation

/-! What junk detection reads of a Clang AST: statements and variables by their source locations. Only valid
locations are modelled; where the AST has an invalid one there is none. -/

namespace Mull.JunkDetection
open Base

section
variable (Loc : Type) [LinearOrder Loc]

/-- The order of the locations is `clang::BeforeThanCompare`. -/
structure SourceManager where
  isFileID : Loc → Bool
  getFileID : Loc → Nat
  getFileOffset : Loc → Nat
  isInSystemHeader : Loc → Bool
  getExpansionLineNumber : Loc → Int32
  getExpansionColumnNumber : Loc → Int32
  /-- `clang::Lexer::getLocForEndOfToken`; there is none inside a macro -/
  getLocForEndOfToken : Loc → Option Loc
  ordered {a b : Loc} : getFileID a = getFileID b → (a ≤ b ↔ getFileOffset a ≤ getFileOffset b)

inductive BinaryOperatorKind
  | ptrMemD | ptrMemI | mul | div | rem | add | sub | shl | shr | cmp | lt | gt | le | ge | eq | ne | and | xor | or
  | lAnd | lOr | assign | mulAssign | divAssign | remAssign | addAssign | subAssign | shlAssign | shrAssign
  | andAssign | xorAssign | orAssign | comma
deriving DecidableEq

inductive UnaryOperatorKind
  | postInc | postDec | preInc | preDec | addrOf | deref | plus | minus | not | lNot | real | imag | extension
  | coawait
deriving DecidableEq

inductive TypeClass
  | void
  | real
  | other
deriving DecidableEq

/-- The type of a call may be null. -/
inductive StmtClass
  | integerLiteral
  | returnStmt
  | binaryOperator (opcode : BinaryOperatorKind)
  | unaryOperator (opcode : UnaryOperatorKind)
  | callExpr (type : Option TypeClass)
  | cxxMemberCallExpr (type : Option TypeClass)
  | cxxOperatorCallExpr (type : Option TypeClass)
  | other
deriving DecidableEq

structure Stmt where
  stmtClass : StmtClass
  getSourceRange : Option (Segment Loc)
  /-- `getOperatorLoc` of an operator or of a call of one, `getExprLoc` of a member call -/
  getLoc : Option Loc
  located : ∀ loc ∈ getLoc, ∃ range ∈ getSourceRange, range.first ≤ loc ∧ loc ≤ range.last

inductive DefinitionKind
  | declarationOnly
  | tentativeDefinition
  | definition
deriving DecidableEq

structure VarDecl where
  getLocation : Option Loc
  hasDefinition : DefinitionKind
  isConstQualified : Bool
  /-- among the children of the variable as well -/
  getInit : Option (Stmt Loc)

inductive Node
  | stmt (stmt : Stmt Loc)
  | varDecl (decl : VarDecl Loc)
  | decl

/-- A function or a function template; the children are what its traversal comes to. -/
structure Decl where
  getSourceRange : Segment Loc
  hasBody : Bool
  children : List (LabelledTree (Node Loc))

end

def singleFile : SourceManager Nat where
  isFileID _ := true
  getFileID _ := 0
  getFileOffset := id
  isInSystemHeader _ := false
  getExpansionLineNumber _ := 1
  getExpansionColumnNumber loc := .ofNat (loc + 1)
  getLocForEndOfToken loc := some (loc + 1)
  ordered _ := Iff.rfl

section
variable {Loc : Type} [LinearOrder Loc]

def Stmt.Contains (stmt : Stmt Loc) (loc : Loc) : Prop :=
  ∃ range ∈ stmt.getSourceRange, range.first ≤ loc ∧ loc ≤ range.last

def Stmt.getBegin (stmt : Stmt Loc) : Option Loc := stmt.getSourceRange.map Segment.first

theorem Stmt.contains_getLoc {stmt : Stmt Loc} {loc : Loc} (own : stmt.getLoc = some loc) :
    stmt.Contains loc :=
  stmt.located loc own

theorem Stmt.contains_getBegin {stmt : Stmt Loc} {loc : Loc} (own : stmt.getBegin = some loc) :
    stmt.Contains loc := by
  obtain ⟨range, eq, rfl⟩ := Option.map_eq_some_iff.mp own
  exact ⟨range, eq, le_rfl, range.ordered⟩

/-- The nodes of a declaration with their parents, as `RecursiveASTVisitor` comes to them. -/
def Decl.nodes (decl : Decl Loc) : List (Option (Node Loc) × Node Loc) := preorderAll none decl.children

end

end Mull.JunkDetection
