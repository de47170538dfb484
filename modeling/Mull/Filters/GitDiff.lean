import Mathlib.Data.List.AList
import Mull.Base.Delimited
import Mull.SourceLocation

/-! `GitDiffReader` and `GitDiffFilter`: the lines that a diff changes, and the instructions on them. -/

namespace Mull.Filters
open Base LLVM

abbrev GitDiffSourceFileRange := Int32 × Int32

abbrev GitDiffInfo := AList fun _ : Text => List GitDiffSourceFileRange

/-- The pattern `^\+\+\+\ [^/]+/(.*)`; a dot does not match a line terminator. -/
def lineRegex : Text → Option Text
  | '+' :: '+' :: '+' :: ' ' :: rest =>
    if (rest.takeWhile (· != '/')).isEmpty then none
    else
      match rest.dropWhile (· != '/') with
      | [] => none
      | _ :: name => some (name.takeWhile fun c => c != '\n' && c != '\r')
  | _ => none

def isRangeChar (c : Char) : Bool := c.isDigit || c == ','

/-- The groups of `(\d+)(,(\d+))?`: the first and the last. -/
def rangeGroups (text : Text) : Option (Text × Text) :=
  if (text.takeWhile Char.isDigit).isEmpty then none
  else
    match text.dropWhile Char.isDigit with
    | ',' :: count => some (text.takeWhile Char.isDigit, count.takeWhile Char.isDigit)
    | _ => some (text.takeWhile Char.isDigit, [])

/-- The pattern `^@@ -[0-9,]+ \+(\d+)(,(\d+))?`. -/
def rangeRegex : Text → Option (Text × Text)
  | '@' :: '@' :: ' ' :: '-' :: rest =>
    if (rest.takeWhile isRangeChar).isEmpty then none
    else
      match rest.dropWhile isRangeChar with
      | ' ' :: '+' :: newRange => rangeGroups newRange
      | _ => none
  | _ => none

def GitDiffInfo.push (gitDiffInfo : GitDiffInfo) (fileName : Text)
    (range : GitDiffSourceFileRange) : GitDiffInfo :=
  gitDiffInfo.insert fileName ((gitDiffInfo.lookup fileName).getD [] ++ [range])

/-- One line; none where `stoi` throws. -/
def parseLine (gitRepoPath : Text) (state : Text × GitDiffInfo) (currentLine : Text) :
    Option (Text × GitDiffInfo) :=
  match lineRegex currentLine with
  | some name => some (absoluteFilePath gitRepoPath name, state.2)
  | none =>
    match rangeRegex currentLine with
    | none => some state
    | some (startLineStr, lineCountStr) => do
      let startLine ← stoi startLineStr
      let lineCount ← (if lineCountStr.isEmpty then some 1 else stoi lineCountStr)
      if lineCount > 0 then some (state.1, state.2.push state.1 (startLine, lineCount)) else some state

def parseDiffContent (gitRepoPath diffContent : Text) : Option GitDiffInfo :=
  if diffContent.isEmpty then some ∅
  else ((getlines '\n' diffContent).foldlM (parseLine gitRepoPath) ([], ∅)).map Prod.snd

/-- The loop over the ranges; none where the sum of an `int` overflows. -/
def skipsLine (line : Int32) : List GitDiffSourceFileRange → Option Bool
  | [] => some true
  | range :: ranges => do
    let sum ← narrow (range.1.toInt + range.2.toInt)
    let rangeEnd ← narrow (sum.toInt - 1)
    if range.1 ≤ line ∧ line ≤ rangeEnd then some false else skipsLine line ranges

def shouldSkip (gitDiffInfo : GitDiffInfo) (instruction : Inst) : Option Bool :=
  let sourceLocation := SourceLocation.locationFromInstruction instruction
  if sourceLocation.isNull then some true
  else if gitDiffInfo.entries.isEmpty then some true
  else
    match gitDiffInfo.lookup sourceLocation.filePath with
    | none => some true
    | some ranges => skipsLine sourceLocation.line ranges

theorem shouldSkip_eq (gitDiffInfo : GitDiffInfo) (instruction : Inst) :
    shouldSkip gitDiffInfo instruction =
      if (SourceLocation.locationFromInstruction instruction).isNull then some true
      else skipsLine (SourceLocation.locationFromInstruction instruction).line
        ((gitDiffInfo.lookup (SourceLocation.locationFromInstruction instruction).filePath).getD []) := by
  unfold shouldSkip
  dsimp only
  split
  · rfl
  · split
    · rename_i empty
      obtain rfl : gitDiffInfo = ∅ := AList.ext (List.isEmpty_iff.mp empty)
      rfl
    · cases gitDiffInfo.lookup (SourceLocation.locationFromInstruction instruction).filePath <;> rfl

theorem lookup_push (gitDiffInfo : GitDiffInfo) (fileName path : Text) (range : GitDiffSourceFileRange) :
    ((gitDiffInfo.push fileName range).lookup path).getD [] =
      (gitDiffInfo.lookup path).getD [] ++ if fileName = path then [range] else [] := by
  unfold GitDiffInfo.push
  by_cases same : fileName = path
  · subst same
    rw [AList.lookup_insert, if_pos rfl]
    rfl
  · rw [AList.lookup_insert_ne (Ne.symm same), if_neg same, List.append_nil]

end Mull.Filters
