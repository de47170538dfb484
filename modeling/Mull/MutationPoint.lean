import Mull.Base.Delimited
import Mull.Mutators.IRMutation
import Mull.Mutators.Mutator
import Mull.SourceLocation

/-! Mutation points, their user identifiers and the records an instrumented program carries. -/

namespace Mull
open Base

/-- Where an instruction stands: the positions of its function, its basic block and itself. -/
structure MutationPointAddress where
  functionIndex : Nat
  basicBlockIndex : Nat
  instructionIndex : Nat
deriving DecidableEq

/-- `bitcode` is the position of the module in the program; a mutator that rewrites branches itself
passes no low level mutation. -/
structure MutationPoint where
  mutator : Mutator
  irMutator : Option IRMutation
  address : MutationPointAddress
  bitcode : Nat
  originalFunction : LLVM.FunctionRef
  mutatedFunction : Option LLVM.FunctionRef
  sourceLocation : SourceLocation
  endLocation : SourceLocation
  covered : Bool
deriving DecidableEq

namespace MutationPoint

/-- `userIdentifier`, fixed by the constructor. -/
def getUserIdentifier (point : MutationPoint) : Text :=
  point.mutator.getUniqueIdentifier ++ ':' :: point.sourceLocation.filePath ++ ':' ::
    toText point.sourceLocation.line ++ ':' :: toText point.sourceLocation.column

def setCovered (point : MutationPoint) (isCovered : Bool) : MutationPoint :=
  { point with covered := isCovered }

def setEndLocation (point : MutationPoint) (line column : Int32) : MutationPoint :=
  { point with endLocation := { point.sourceLocation with line := line, column := column } }

/-- `std::to_string(bool)`. -/
def flag (value : Bool) : Text := toText (if value then 1 else 0)

/-- The encoding that `recordMutation` stores in a global of the section; LLVM ends the string with a NUL. -/
def encoding (point : MutationPoint) : Text :=
  point.getUserIdentifier ++ ':' :: toText point.endLocation.line ++ ':' ::
    toText point.endLocation.column ++ ':' :: flag point.covered

def parts (point : MutationPoint) : List Text :=
  [point.mutator.getUniqueIdentifier, point.sourceLocation.filePath, toText point.sourceLocation.line,
    toText point.sourceLocation.column, toText point.endLocation.line, toText point.endLocation.column,
    flag point.covered]

theorem encoding_eq (point : MutationPoint) : point.encoding = joinChunks ':' point.parts := by
  simp [encoding, getUserIdentifier, parts, joinChunks]

theorem colon_free {point : MutationPoint} (path : ':' ∉ point.sourceLocation.filePath) :
    ∀ part ∈ point.parts, ':' ∉ part := by
  have numeral (n : Int32) : ':' ∉ toText n := toText_free (by decide) (by decide) n
  simp [parts, flag, numeral, path, point.mutator.getUniqueIdentifier_free (c := ':') rfl (by decide)]

theorem nul_free {point : MutationPoint} (path : '\x00' ∉ point.sourceLocation.filePath) :
    '\x00' ∉ point.encoding := by
  have numeral (n : Int32) : '\x00' ∉ toText n := toText_free (by decide) (by decide) n
  rw [encoding_eq]
  refine joinChunks_free (by decide) ?_
  simp [parts, flag, numeral, path, point.mutator.getUniqueIdentifier_free (c := '\x00') rfl (by decide)]

theorem encoding_isChunk {point : MutationPoint} (path : '\x00' ∉ point.sourceLocation.filePath) :
    IsChunk '\x00' point.encoding :=
  ⟨by simp [encoding, getUserIdentifier], nul_free path⟩

theorem parts_isChunk {point : MutationPoint} (nonempty : point.sourceLocation.filePath ≠ [])
    (path : ':' ∉ point.sourceLocation.filePath) : ∀ part ∈ point.parts, IsChunk ':' part := by
  intro part mem
  refine ⟨?_, colon_free path part mem⟩
  simp only [parts, List.mem_cons, List.not_mem_nil, or_false] at mem
  rcases mem with rfl | rfl | rfl | rfl | rfl | rfl | rfl
  · exact point.mutator.getUniqueIdentifier_ne_nil
  · exact nonempty
  all_goals exact toText_ne_nil _

end MutationPoint

end Mull
