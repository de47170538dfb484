import Mull.LLVM.IR

/-! Source locations of functions and instructions. -/

namespace Mull
open Base LLVM

structure SourceLocation where
  unitDirectory : Text
  unitFilePath : Text
  directory : Text
  filePath : Text
  line : Int32
  column : Int32
deriving DecidableEq

namespace SourceLocation

def nullSourceLocation : SourceLocation := ⟨[], [], [], [], 0, 0⟩

def isNull (location : SourceLocation) : Bool :=
  (location.directory.isEmpty && location.filePath.isEmpty && location.line == 0 && location.column == 0) ||
  -- instructions compiled with -Og may have a file but no position
  (location.line == 0 && location.column == 0)

theorem isNull_iff {location : SourceLocation} :
    location.isNull = true ↔ location.line = 0 ∧ location.column = 0 := by
  simp only [isNull, Bool.or_eq_true, Bool.and_eq_true, beq_iff_eq]
  exact ⟨fun h => h.elim (fun both => ⟨both.1.2, both.2⟩) id, .inr⟩

end SourceLocation

/-- `is_absolute` and `get_separator` are those of POSIX. -/
def absoluteFilePath (directory filePath : Text) : Text :=
  if !filePath.isEmpty && filePath.head? != some '/' then directory ++ '/' :: filePath else filePath

namespace SourceLocation

def fromDebugLoc (debugInfo : DebugLoc) (line column : Int32) : SourceLocation :=
  let unit := debugInfo.unit.getD ([], [])
  ⟨unit.1, absoluteFilePath unit.1 unit.2, debugInfo.directory,
    absoluteFilePath debugInfo.directory debugInfo.filename, line, column⟩

def locationFromInstruction (instruction : Inst) : SourceLocation :=
  match instruction.debugLoc with
  | none => nullSourceLocation
  | some debugInfo => fromDebugLoc debugInfo debugInfo.line debugInfo.column

def locationFromFunction (function : Function) : SourceLocation :=
  match function.debugLoc with
  | none => nullSourceLocation
  | some debugInfo => fromDebugLoc debugInfo debugInfo.line 0

end SourceLocation

end Mull
