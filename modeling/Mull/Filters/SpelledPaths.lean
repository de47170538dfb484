import Mull.Filters.ChangedLines
import Mull.JunkDetection.PosixPath

/-! Files of a diff and of the debug information are the same where their paths are spelled the same. -/

namespace Mull.Filters
open Base LLVM SourceLocation JunkDetection

/-- A changed file's name, on its line of a diff, and debug information whose path becomes the file's. -/
structure Denotes (root name directory filename : Text) : Prop where
  absolute : isAbsolute root = true
  undotted : ∀ component ∈ Posix.components root, component ≠ ['.'] ∧ component ≠ ['.', '.']
  nonempty : name ≠ []
  relative : isAbsolute name = false
  line : '\n' ∉ name ∧ '\r' ∉ name
  same : Posix.removeDots (absoluteFilePath directory filename) = root ++ '/' :: name

/-- Every diff gets the same answer for two instructions at one position, one with this debug information and one
whose file's path is exactly that of the diff. -/
def SameAnswer (root name directory filename : Text) : Prop :=
  ∀ diffContent gitDiffInfo, parseDiffContent root diffContent = some gitDiffInfo →
    ∀ (instruction reference : Inst) (debugLoc : DebugLoc), instruction.debugLoc = some debugLoc →
      debugLoc.directory = directory → debugLoc.filename = filename →
      (locationFromInstruction reference).filePath = root ++ '/' :: name →
      (locationFromInstruction reference).line = debugLoc.line →
      (locationFromInstruction reference).column = debugLoc.column →
      shouldSkip gitDiffInfo instruction = shouldSkip gitDiffInfo reference

section
variable {root name directory filename : Text}

theorem shouldSkip_congr {instruction reference : Inst}
    (path : (locationFromInstruction instruction).filePath = (locationFromInstruction reference).filePath)
    (line : (locationFromInstruction instruction).line = (locationFromInstruction reference).line)
    (column : (locationFromInstruction instruction).column = (locationFromInstruction reference).column)
    (gitDiffInfo : GitDiffInfo) : shouldSkip gitDiffInfo instruction = shouldSkip gitDiffInfo reference := by
  have null : (locationFromInstruction instruction).isNull = (locationFromInstruction reference).isNull := by
    rw [Bool.eq_iff_iff, isNull_iff, isNull_iff, line, column]
  rw [shouldSkip_eq, shouldSkip_eq, null, line, path]

theorem absoluteFilePath_relative (nonempty : name ≠ []) (relative : isAbsolute name = false) :
    absoluteFilePath root name = root ++ '/' :: name := by
  have slash : name.head? ≠ some '/' := by simpa [isAbsolute] using relative
  rw [absoluteFilePath, if_pos]
  simp [nonempty, slash]

/-- The lines of a diff that adds the first line of a file. -/
def firstLineAdded (name : Text) : List Text :=
  ['+' :: '+' :: '+' :: ' ' :: 'b' :: '/' :: name, "@@ -0,0 +1 @@".toList]

theorem parse_firstLineAdded (nonempty : name ≠ []) (relative : isAbsolute name = false)
    (line : '\n' ∉ name ∧ '\r' ∉ name) :
    parseDiffContent root ((firstLineAdded name).flatMap (· ++ ['\n'])) =
      some (GitDiffInfo.push ∅ (root ++ '/' :: name) (1, 1)) := by
  have free : ∀ text ∈ firstLineAdded name, '\n' ∉ text := by
    intro text mem
    rcases List.mem_cons.mp mem with rfl | mem
    · simpa using line.1
    · obtain rfl := List.mem_singleton.mp mem
      decide
  have whole : name.takeWhile (fun c => c != '\n' && c != '\r') = name := by
    apply List.takeWhile_eq_self_iff.mpr
    intro c mem
    have newline : c ≠ '\n' := fun same => line.1 (same ▸ mem)
    have carriage : c ≠ '\r' := fun same => line.2 (same ▸ mem)
    simp [newline, carriage]
  have header : lineRegex ('+' :: '+' :: '+' :: ' ' :: 'b' :: '/' :: name) = some name := by
    have read : lineRegex ('+' :: '+' :: '+' :: ' ' :: 'b' :: '/' :: name) =
        some (name.takeWhile fun c => c != '\n' && c != '\r') := rfl
    rw [read, whole]
  have filed : parseLine root ([], ∅) ('+' :: '+' :: '+' :: ' ' :: 'b' :: '/' :: name) =
      some (root ++ '/' :: name, ∅) := by
    rw [parseLine, header]
    dsimp only
    rw [absoluteFilePath_relative nonempty relative]
  rw [parseDiffContent, getlines_ended free]
  show (List.foldlM (parseLine root) ([], ∅) (firstLineAdded name)).map Prod.snd = _
  rw [firstLineAdded, List.foldlM_cons, filed]
  rfl

/-- A line that one diff adds is kept in the diff's spelling of the path, and in no other. -/
theorem sameAnswer_iff_spelled (nonempty : name ≠ []) (relative : isAbsolute name = false)
    (line : '\n' ∉ name ∧ '\r' ∉ name) :
    SameAnswer root name directory filename ↔ absoluteFilePath directory filename = root ++ '/' :: name := by
  constructor
  · intro same
    by_contra other
    have path : (locationFromInstruction (instructionAt root name 1)).filePath = root ++ '/' :: name :=
      absoluteFilePath_relative nonempty relative
    have answers := same _ _ (parse_firstLineAdded nonempty relative line)
      (instructionAt directory filename 1)
      (instructionAt root name 1) ⟨directory, filename, 1, 1, none⟩ rfl rfl rfl path rfl rfl
    have spelled : (locationFromInstruction (instructionAt directory filename 1)).filePath =
        absoluteFilePath directory filename := rfl
    rw [shouldSkip_eq, shouldSkip_eq, lookup_push, lookup_push, instructionAt_isNull,
      instructionAt_isNull, spelled, path, if_pos rfl, if_neg (Ne.symm other)] at answers
    simp only [AList.lookup_empty] at answers
    exact absurd answers (by decide : ¬ skipsLine 1 [] = skipsLine 1 [(1, 1)])
  · rintro spelled diffContent gitDiffInfo - instruction reference debugLoc found rfl rfl path
      sameLine sameColumn
    apply shouldSkip_congr
    · rw [path, ← spelled, locationFromInstruction, found]
      rfl
    · rw [sameLine, locationFromInstruction, found]
      rfl
    · rw [sameColumn, locationFromInstruction, found]
      rfl

/-- The answers agree where nothing is to be removed from the path in the debug information. -/
theorem sameAnswer_iff (denotes : Denotes root name directory filename) :
    SameAnswer root name directory filename ↔
      Posix.removeDots (absoluteFilePath directory filename) = absoluteFilePath directory filename := by
  rw [sameAnswer_iff_spelled denotes.nonempty denotes.relative denotes.line, denotes.same]
  exact eq_comm

theorem sameAnswer_iff_root : SameAnswer "/r".toList "src/a.c".toList "/r".toList "src/a.c".toList := by
  have denotes : Denotes "/r".toList "src/a.c".toList "/r".toList "src/a.c".toList :=
    ⟨by decide, by decide, by decide, by decide, by decide, by decide⟩
  exact (sameAnswer_iff denotes).mpr (by decide)

/-- A file compiled from a build directory. -/
theorem not_sameAnswer_build :
    Denotes "/r".toList "a.c".toList "/r/build".toList "../a.c".toList ∧
      ¬ SameAnswer "/r".toList "a.c".toList "/r/build".toList "../a.c".toList := by
  refine ⟨⟨by decide, by decide, by decide, by decide, by decide, by decide⟩, ?_⟩
  rw [sameAnswer_iff_spelled (by decide) (by decide) (by decide)]
  decide

end

end Mull.Filters
