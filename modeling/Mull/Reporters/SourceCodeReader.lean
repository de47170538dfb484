import Mathlib.Data.Nat.Log
import Mull.Reporters.SourceManager

/-! `SourceCodeReader`: excerpts of the source with a caret under the mutant. -/

namespace Mull.Reporters
open Base

namespace SourceCodeReader
open SourceManager

/-- What the allocated memory holds when a line is read. -/
abbrev Memory := Int32 → Nat → Char

def makeCaret (sourceLine : Text) (column : Nat) : Except Failure Text :=
  let spaces := (List.range column).map fun index => if sourceLine[index]? = some '\t' then '\t' else ' '
  if column = 0 then .error .outOfBounds else .ok (spaces.set (column - 1) '^')

def getSourceLineWithCaret (files : Files) (memory : Memory) (location : SourceLocation)
    (manager : SourceManager) :
    Except Failure (Text × SourceManager) := do
  let (line, manager) ← getLine files (memory location.line) location manager
  if ¬ toSize location.column < line.length then throw (.assertion "sourceLocation.column < line.size()")
  let caret ← makeCaret line (toSize location.column)
  pure (line ++ caret ++ ['\n'], manager)

/-- `log10`, rounded down. -/
def maxDigits (maxLineNumber : Nat) : Nat := if maxLineNumber = 0 then 1 else Nat.log 10 maxLineNumber + 1

def setw (width : Nat) (text : Text) : Text := List.replicate (width - text.length) ' ' ++ text

def numbered (width : Nat) (line : Int32) (content : Text) :
    Text := setw width (toText line) ++ ':' :: content

/-- Another line of the location's file behind its number, if there is one. -/
def otherLine (files : Files) (memory : Memory) (location : SourceLocation) (digits : Nat) (present : Bool)
    (line : Int32) (manager : SourceManager) : Except Failure (Text × SourceManager) :=
  if present then do
    let (content, manager) ← getLine files (memory line) { location with line } manager
    pure (numbered digits line content, manager)
  else
    pure ([], manager)

def getContext (files : Files) (memory : Memory) (location : SourceLocation) (manager : SourceManager) :
    Except Failure (Text × SourceManager) := do
  if location.isNull || location.line == 0 || location.column == 0 || location.filePath.isEmpty then
    pure ("Source code information is unavailable. Possibly a junk mutation.".toList, manager)
  else if (files location.filePath).isNone then
    pure ("File does not exist: ".toList ++ location.filePath, manager)
  else
    let (totalLines, manager) ← getNumberOfLines files location manager
    let digits := maxDigits (min totalLines (toSize (location.line + 1)))
    let (line, manager) ← getLine files (memory location.line) location manager
    if ¬ toSize location.column < line.length then throw (.assertion "sourceLocation.column < line.size()")
    let caret ← makeCaret line (toSize location.column)
    let (previous, manager) ←
      otherLine files memory location digits (1 < location.line) (location.line - 1) manager
    let own := numbered digits location.line line ++ (List.replicate (digits + 1) ' ' ++ caret) ++ ['\n']
    let (next, manager) ←
      otherLine files memory location digits (toSize location.line < totalLines) (location.line + 1) manager
    pure (previous ++ own ++ next, manager)

end SourceCodeReader
end Mull.Reporters
