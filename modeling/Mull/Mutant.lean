import Mull.MutationPoint

/-! Mutants, as the driver reports them and as the runner reads them back. -/

namespace Mull
open Base

structure Mutant where
  identifier : Text
  mutatorIdentifier : Text
  sourceLocation : SourceLocation
  endLocation : SourceLocation
  covered : Bool
  mutatorKind : MutatorKind := .invalidKind
deriving DecidableEq

/-- `MutantComparator`: file, line, column and mutator, compared in this order. -/
def MutantComparator (lhs rhs : Mutant) : Bool :=
  let l := lhs.sourceLocation
  let r := rhs.sourceLocation
  l.filePath < r.filePath || (l.filePath == r.filePath &&
    (l.line < r.line || (l.line == r.line &&
      (l.column < r.column || (l.column == r.column && lhs.mutatorIdentifier < rhs.mutatorIdentifier)))))

/-- What a mutant says to whoever runs it: identifier, mutator, path, begin, end and coverage. The
runner knows neither the directories nor the kind of the mutator. -/
structure Mutant.View where
  identifier : Text
  mutatorIdentifier : Text
  filePath : Text
  beginLine : Int32
  beginColumn : Int32
  endLine : Int32
  endColumn : Int32
  covered : Bool
deriving DecidableEq

def Mutant.view (mutant : Mutant) : Mutant.View where
  identifier := mutant.identifier
  mutatorIdentifier := mutant.mutatorIdentifier
  filePath := mutant.sourceLocation.filePath
  beginLine := mutant.sourceLocation.line
  beginColumn := mutant.sourceLocation.column
  endLine := mutant.endLocation.line
  endColumn := mutant.endLocation.column
  covered := mutant.covered

def MutationPoint.view (point : MutationPoint) : Mutant.View where
  identifier := point.getUserIdentifier
  mutatorIdentifier := point.mutator.getUniqueIdentifier
  filePath := point.sourceLocation.filePath
  beginLine := point.sourceLocation.line
  beginColumn := point.sourceLocation.column
  endLine := point.endLocation.line
  endColumn := point.endLocation.column
  covered := point.covered

end Mull
