import Mull.JunkDetection.ASTStorage
import Mull.MutationPoint

/-! `CXXJunkDetector`: the points that no expression stands for are junk. -/

namespace Mull.JunkDetection
open Base

section
variable {Loc : Type} [LinearOrder Loc]

/-- Where the mutated expression ends: at its own end if it begins at the mutation, else after the token there. -/
def endLocation (sourceManager : SourceManager Loc) (mutantExpression : Stmt Loc) (location : Loc) :
    Int32 × Int32 :=
  let beginLine := (mutantExpression.getBegin.map sourceManager.getExpansionLineNumber).getD 0
  let beginColumn := (mutantExpression.getBegin.map sourceManager.getExpansionColumnNumber).getD 0
  let mutationLocationBeginLine := sourceManager.getExpansionLineNumber location
  let mutationLocationBeginColumn := sourceManager.getExpansionColumnNumber location
  let sourceLocationEnd :=
    if beginLine = mutationLocationBeginLine ∧ beginColumn = mutationLocationBeginColumn then
      mutantExpression.getSourceRange.map Segment.last
    else some location
  let sourceLocationEndActual := sourceLocationEnd.bind sourceManager.getLocForEndOfToken
  ((sourceLocationEndActual.map sourceManager.getExpansionLineNumber).getD 0,
    (sourceLocationEndActual.map sourceManager.getExpansionColumnNumber).getD 0)

/-- What `isJunk` does once it has the unit. -/
def isJunkIn (ast : ThreadSafeASTUnit Loc) (point : MutationPoint) :
    Except Failure (Bool × MutationPoint) := do
  let location ← ast.getLocation point.sourceLocation
  let sourceManager := (← ast.dereference).getSourceManager
  if ← ast.isInSystemHeader location then pure (true, point)
  else
    match ← ast.getDecl location with
    | none => pure (true, point)
    | some decl =>
      match ← findMutantExpression point.mutator.mutatorKind ⟨sourceManager, location⟩ decl with
      | none => pure (true, point)
      | some mutantExpression =>
        let (endLine, endColumn) := endLocation sourceManager mutantExpression location
        pure (false, point.setEndLocation endLine endColumn)

def isJunk (loader : Loader Loc) (point : MutationPoint) (astUnits : ASTUnits Loc) :
    Except Failure ((Bool × MutationPoint) × ASTUnits Loc) :=
  if point.sourceLocation.isNull then .ok ((true, point), astUnits)
  else
    match loader.findAST point.sourceLocation astUnits with
    | (none, astUnits) => .ok ((true, point), astUnits)
    | (some ast, astUnits) => do
      let verdict ← isJunkIn ast point
      pure (verdict, astUnits)

def isJunkEach (loader : Loader Loc) : List MutationPoint → ASTUnits Loc →
    Except Failure (List (Bool × MutationPoint) × ASTUnits Loc)
  | [], astUnits => .ok ([], astUnits)
  | point :: points, astUnits => do
    let (verdict, astUnits) ← isJunk loader point astUnits
    let (verdicts, astUnits) ← isJunkEach loader points astUnits
    pure (verdict :: verdicts, astUnits)

end

end Mull.JunkDetection
