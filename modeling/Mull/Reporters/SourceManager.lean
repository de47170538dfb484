import Mathlib.Algebra.Order.Ring.Nat
import Mathlib.Logic.Function.Basic
import Mull.Base.Lines
import Mull.SourceLocation

/-! `SourceManager`: the lines of source files, found by a table of their offsets. -/

namespace Mull.Reporters
open Base

/-- How a call ends that does not return. -/
inductive Failure
  | assertion (condition : String)
  | outOfBounds
  | nullFile
deriving DecidableEq

/-- The files that can be opened. -/
abbrev Files := Text → Option Text

structure LineOffset where
  file : Text
  offsets : List UInt32
deriving DecidableEq

structure SourceManager where
  lineOffsets : Text → Option LineOffset

namespace SourceManager

def new : SourceManager := ⟨fun _ => none⟩

/-- The loop of `getLineOffset`, from a character `c` on: the end of the file is counted as one more. -/
def countLines (c : Char) (offset : UInt32) : Text → List UInt32
  | [] => (if c = '\n' then [offset] else []) ++ [offset + 1]
  | next :: rest => (if c = '\n' then [offset] else []) ++ countLines next (offset + 1) rest

def getLineOffset (files : Files) (manager : SourceManager) (filePath : Text) :
    Except Failure (LineOffset × SourceManager) :=
  match manager.lineOffsets filePath with
  | some lineOffset => .ok (lineOffset, manager)
  | none =>
    match files filePath with
    | none => .error .nullFile
    | some file =>
      let lineOffset := { file, offsets := countLines '\n' 0 file }
      .ok (lineOffset, ⟨Function.update manager.lineOffsets filePath (some lineOffset)⟩)

/-- An `int` as a `size_t`. -/
def toSize (n : Int32) : Nat := (n.toInt % 2 ^ 64).toNat

/-- What a buffer holds after at most so many characters were read into it. -/
def fread (buffer : Nat → Char) (count : Nat) (input : Text) : Text :=
  input.take count ++ (List.range' (input.take count).length (count - (input.take count).length)).map buffer

/-- `buffer` is what the allocated memory holds. Writing the closing zero is in bounds unless the size wrapped. -/
def getLine (files : Files) (buffer : Nat → Char) (location : SourceLocation) (manager : SourceManager) :
    Except Failure (Text × SourceManager) := do
  let (lineOffset, manager) ← manager.getLineOffset files location.filePath
  if ¬ toSize location.line < lineOffset.offsets.length then
    throw (.assertion "location.line < lineOffset.offsets.size()")
  let some lineBegin := lineOffset.offsets[toSize (location.line - 1)]? | throw .outOfBounds
  let some lineEnd := lineOffset.offsets[toSize location.line]? | throw .outOfBounds
  let lineLength := lineEnd - lineBegin
  if ¬ lineLength < lineLength + 1 then throw .outOfBounds
  let content := fread buffer lineLength.toNat (lineOffset.file.drop lineBegin.toNat)
  pure (content.takeWhile (· ≠ '\x00'), manager)

def getNumberOfLines (files : Files) (location : SourceLocation) (manager : SourceManager) :
    Except Failure (Nat × SourceManager) := do
  let (lineOffset, manager) ← manager.getLineOffset files location.filePath
  if ¬ 0 < lineOffset.offsets.length then throw (.assertion "lineOffset.offsets.size() > 0")
  pure (lineOffset.offsets.length - 1, manager)

/-! ### The table -/

theorem countLines_eq (c : Char) (start : Nat) (rest : Text) :
    countLines c (.ofNat start) rest =
      (if c = '\n' then [UInt32.ofNat start] else []) ++ (ends start (lines '\n' rest)).map UInt32.ofNat := by
  induction rest generalizing c start with
  | nil => simp [countLines, lines, ends]
  | cons next rest ih =>
    have step : UInt32.ofNat start + 1 = UInt32.ofNat (start + 1) := by simp
    rw [countLines, step, ih, lines]
    by_cases same : next = '\n'
    · rw [if_pos same, if_pos same, ends_cons start _ (lines_ne_nil '\n' rest)]
      simp
    · obtain ⟨first, others, parts⟩ := List.exists_cons_of_ne_nil (lines_ne_nil '\n' rest)
      rw [if_neg same, if_neg same, parts]
      cases others with
      | nil => simp [ends, Nat.add_assoc, Nat.add_comm 1]
      | cons second others => simp [ends, Nat.add_assoc, Nat.add_comm 1]

/-- The table of a file: where its lines begin, and one past its end. -/
def table (content : Text) : List UInt32 := 0 :: (ends 0 (lines '\n' content)).map UInt32.ofNat

theorem countLines_file (content : Text) : countLines '\n' 0 content = table content := by
  have counted := countLines_eq '\n' 0 content
  simpa [table] using counted

theorem table_length (content : Text) : (table content).length = (lines '\n' content).length + 1 := by
  simp [table]

theorem table_getElem? {content : Text} {i : Nat} (inside : i ≤ (lines '\n' content).length) :
    (table content)[i]? = some (.ofNat (lineStart (lines '\n' content) i +
      if i = (lines '\n' content).length then 1 else 0)) := by
  have positive := List.length_pos_iff.mpr (lines_ne_nil '\n' content)
  cases i with
  | zero =>
    rw [if_neg (by omega)]
    simp [table, lineStart]
  | succ i => simp [table, ends_getElem? 0 (Nat.lt_of_succ_le inside)]

def Cached (files : Files) (manager : SourceManager) : Prop :=
  ∀ path lineOffset, manager.lineOffsets path = some lineOffset →
    files path = some lineOffset.file ∧ lineOffset.offsets = table lineOffset.file

theorem new_cached (files : Files) : Cached files new := by
  intro path lineOffset found
  cases found

theorem getLineOffset_spec {files : Files} {manager : SourceManager} (cached : Cached files manager)
    {path content : Text} (exists_ : files path = some content) :
    ∃ after, manager.getLineOffset files path = .ok (⟨content, table content⟩, after) ∧
    Cached files after := by
  unfold getLineOffset
  cases found : manager.lineOffsets path with
  | some lineOffset =>
    obtain ⟨read, offsets⟩ := cached path lineOffset found
    obtain rfl := Option.some.inj (read.symm.trans exists_)
    exact ⟨manager, by rw [← offsets], cached⟩
  | none =>
    rw [exists_]
    refine ⟨_, by dsimp only; rw [countLines_file], ?_⟩
    intro other lineOffset entry
    dsimp only at entry
    by_cases same : other = path
    · subst same
      rw [Function.update_self] at entry
      obtain rfl := Option.some.inj entry
      exact ⟨exists_, rfl⟩
    · rw [Function.update_of_ne same] at entry
      exact cached other lineOffset entry

/-! ### One line -/

theorem ofNat_lt_succ {count : Nat} (small : count < 2 ^ 32) :
    UInt32.ofNat count < UInt32.ofNat count + 1 ↔ count + 1 ≠ 2 ^ 32 := by
  rw [UInt32.lt_iff_toNat_lt, UInt32.toNat_add, UInt32.toNat_ofNat_of_lt' small]
  have one : (1 : UInt32).toNat = 1 := rfl
  rw [one]
  omega

theorem toSize_of {n : Int32} {i : Nat} (value : n.toInt = i) : toSize n = i := by
  have small := Int32.toInt_lt n
  rw [toSize, value]
  omega

theorem toSize_pred {n : Int32} {i : Nat} (value : n.toInt = i + 1) : toSize (n - 1) = i := by
  have small := Int32.toInt_lt n
  apply toSize_of
  rw [Int32.toInt_sub, value]
  have one : (1 : Int32).toInt = 1 := rfl
  rw [one, Int.bmod_def]
  omega

theorem fread_take {buffer : Nat → Char} {text rest : Text} :
    fread buffer text.length (text ++ rest) = text := by
  simp [fread]

theorem fread_short {buffer : Nat → Char} {text : Text} :
    fread buffer (text.length + 1) text = text ++ [buffer text.length] := by
  have all : text.take (text.length + 1) = text := List.take_of_length_le (Nat.le_succ _)
  simp [fread, all]

/-- What the last line is read with behind it. -/
def behind (content : Text) (buffer : Nat → Char) (i : Nat) (text : Text) : Text :=
  if i + 1 = (lines '\n' content).length then [buffer text.length] else []

theorem behind_length (content : Text) (buffer : Nat → Char) (i : Nat) (text : Text) :
    (behind content buffer i text).length = if i + 1 = (lines '\n' content).length then 1 else 0 := by
  unfold behind
  split <;> rfl

theorem fread_line {content front text rest : Text} {buffer : Nat → Char} {i : Nat}
    (parts : content = front ++ (text ++ rest)) (last : (lines '\n' content).length = i + 1 → rest = []) :
    fread buffer (text.length + (behind content buffer i text).length) (content.drop front.length) =
      text ++ behind content buffer i text := by
  have placed : content.drop front.length = text ++ rest := by
    rw [parts]
    exact List.drop_left
  rw [placed]
  unfold behind
  split
  · rename_i outer
    rw [last outer.symm, List.append_nil]
    exact fread_short
  · rw [List.append_nil]
    exact fread_take

/-- A line whose offsets do not wrap: what was read, up to the first zero; or a buffer of no size. -/
theorem getLine_spec {files : Files} {manager : SourceManager} (cached : Cached files manager)
    {content : Text}
    {location : SourceLocation} (exists_ : files location.filePath = some content) {i : Nat}
    (line : location.line.toInt = i + 1) {text : Text} (found : (lines '\n' content)[i]? = some text)
    (small : lineStart (lines '\n' content) (i + 1) < 2 ^ 32 - 1) (buffer : Nat → Char) :
    ∃ after, Cached files after ∧ getLine files buffer location manager =
      if text.length + (behind content buffer i text).length + 1 = 2 ^ 32 then .error .outOfBounds
      else .ok ((text ++ behind content buffer i text).takeWhile (· ≠ '\x00'), after) := by
  obtain ⟨after, opened, cachedAfter⟩ := getLineOffset_spec cached exists_
  obtain ⟨inside, -⟩ := List.getElem?_eq_some_iff.mp found
  obtain ⟨front, rest, parts, frontLength, last⟩ := flatten_eq_line found
  rw [lines_flatten] at parts
  rw [lineStart_succ found, ← frontLength] at small
  have one := behind_length content buffer i text
  have lineBegin : (table content)[i]? = some (.ofNat front.length) := by
    rw [table_getElem? (Nat.le_of_lt inside), if_neg (Nat.ne_of_lt inside), frontLength]
    rfl
  have lineEnd : (table content)[i + 1]? =
      some (.ofNat (front.length + (text.length + (behind content buffer i text).length))) := by
    rw [table_getElem? inside, lineStart_succ found, frontLength, one, Nat.add_assoc]
  refine ⟨after, cachedAfter, ?_⟩
  unfold getLine
  have line' : location.line.toInt = (i + 1 : Nat) := line
  rw [opened, toSize_of line', toSize_pred line]
  simp only [bind, Except.bind, table_length, lineBegin, lineEnd]
  have counted : ¬ ¬ i + 1 < (lines '\n' content).length + 1 := by omega
  rw [if_neg counted]
  have most : (behind content buffer i text).length ≤ 1 := by
    rw [one]
    split <;> omega
  have readAll := @fread_line _ _ _ _ buffer _ parts last
  have bound : text.length + (behind content buffer i text).length < 2 ^ 32 := by omega
  generalize text.length + (behind content buffer i text).length = count at readAll bound ⊢
  have lineLength : UInt32.ofNat (front.length + count) - UInt32.ofNat front.length = .ofNat count := by
    rw [UInt32.ofNat_add, UInt32.add_comm, UInt32.add_sub_cancel]
  rw [lineLength, UInt32.toNat_ofNat_of_lt' bound,
    UInt32.toNat_ofNat_of_lt' (by omega : front.length < 2 ^ 32), readAll]
  by_cases full : count + 1 = 2 ^ 32
  · rw [if_pos full, if_pos (mt (ofNat_lt_succ bound).mp (not_not_intro full))]
    rfl
  · rw [if_neg full, if_neg (not_not_intro ((ofNat_lt_succ bound).mpr full))]
    rfl

end SourceManager
end Mull.Reporters
