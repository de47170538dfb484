import Mull.Base.Fallible
import Mull.Reporters.SourceManager

/-! What a sequence of `getLine` calls returns. -/

namespace Mull.Reporters.SourceManager
open Base

/-- `buffer` is what the memory holds that the call allocates. -/
structure Call where
  location : SourceLocation
  buffer : Nat → Char

def run (files : Files) : List Call → SourceManager → Except Failure (List Text)
  | [], _ => .ok []
  | call :: calls, manager => do
    let (line, manager) ← getLine files call.buffer call.location manager
    let rest ← run files calls manager
    pure (line :: rest)

theorem getNumberOfLines_spec {files : Files} {manager : SourceManager} (cached : Cached files manager)
    {location : SourceLocation} {content : Text} (exists_ : files location.filePath = some content) :
    ∃ after, Cached files after ∧
      getNumberOfLines files location manager = .ok ((lines '\n' content).length, after) := by
  obtain ⟨after, opened, cachedAfter⟩ := getLineOffset_spec cached exists_
  refine ⟨after, cachedAfter, ?_⟩
  have filled : ¬ ¬ 0 < (table content).length := by simp [table]
  rw [getNumberOfLines, opened]
  simp only [bind, Except.bind]
  rw [if_neg filled, table_length]
  rfl

/-- A line of a file without zeros that is shorter than 2^32 - 1 bytes. -/
def Valid (files : Files) (location : SourceLocation) : Prop :=
  ∃ content, files location.filePath = some content ∧ '\x00' ∉ content ∧ content.length < 2 ^ 32 - 1 ∧
    ∃ count manager, getNumberOfLines files location new = .ok (count, manager) ∧
      1 ≤ location.line.toInt ∧ location.line.toInt ≤ count

def realLine (files : Files) (location : SourceLocation) : Text :=
  match files location.filePath with
  | none => []
  | some content => (lines '\n' content).getD (location.line.toInt.toNat - 1) []

theorem Valid.line {files : Files} {location : SourceLocation} (valid : Valid files location) :
    ∃ content i, files location.filePath = some content ∧ '\x00' ∉ content ∧ content.length < 2 ^ 32 - 1 ∧
      location.line.toInt = (i : Nat) + 1 ∧ (lines '\n' content)[i]? = some (realLine files location) := by
  obtain ⟨content, exists_, free, small, count, manager, counted, first, last⟩ := valid
  obtain ⟨after, -, spec⟩ := getNumberOfLines_spec (new_cached files) exists_
  obtain ⟨rfl, -⟩ := Prod.mk.inj (Except.ok.inj (counted.symm.trans spec))
  have inside : location.line.toInt.toNat - 1 < (lines '\n' content).length := by omega
  refine ⟨content, location.line.toInt.toNat - 1, exists_, free, small, by omega, ?_⟩
  rw [realLine, exists_, List.getElem?_eq_getElem inside]
  dsimp only
  rw [List.getD_eq_getElem?_getD, List.getElem?_eq_getElem inside]
  rfl

/-- Behind the last line the buffer holds a zero, and the buffer's size does not wrap. -/
def ReadsBack (files : Files) (call : Call) : Prop :=
  ∀ content, files call.location.filePath = some content →
    call.location.line.toInt = (lines '\n' content).length →
    call.buffer (realLine files call.location).length = '\x00' ∧
    (realLine files call.location).length + 2 ≠ 2 ^ 32

theorem takeWhile_free {text : Text} (free : '\x00' ∉ text) : text.takeWhile (· ≠ '\x00') = text := by
  apply List.takeWhile_eq_self_iff.mpr
  intro c mem
  exact decide_eq_true fun same => free (same ▸ mem)

theorem takeWhile_behind {text : Text} (free : '\x00' ∉ text) (c : Char) :
    (text ++ [c]).takeWhile (· ≠ '\x00') = text ↔ c = '\x00' := by
  have whole : ∀ x ∈ text, decide (x ≠ '\x00') = true := by
    intro x mem
    exact decide_eq_true fun same => free (same ▸ mem)
  rw [List.takeWhile_append_of_pos whole]
  by_cases zero : c = '\x00' <;> simp [zero]

theorem getLine_real {files : Files} {manager : SourceManager} (cached : Cached files manager) {call : Call}
    (valid : Valid files call.location) :
    ∃ after, Cached files after ∧ ∀ manager',
      getLine files call.buffer call.location manager = .ok (realLine files call.location, manager') ↔
        ReadsBack files call ∧ manager' = after := by
  obtain ⟨content, i, exists_, free, small, line, found⟩ := valid.line
  have reach : lineStart (lines '\n' content) (i + 1) ≤ content.length := by
    have whole := lineStart_le (lines '\n' content) (i + 1)
    rwa [lines_flatten] at whole
  obtain ⟨after, cachedAfter, spec⟩ :=
    getLine_spec cached exists_ line found (Nat.lt_of_le_of_lt reach small) call.buffer
  refine ⟨after, cachedAfter, ?_⟩
  intro manager'
  have member : realLine files call.location ∈ lines '\n' content := List.mem_of_getElem? found
  have bytes : '\x00' ∉ realLine files call.location := by
    intro zero
    rw [← lines_flatten '\n' content] at free
    exact free (List.mem_flatten.mpr ⟨_, member, zero⟩)
  have short : (realLine files call.location).length ≤ content.length := by
    have parts := (List.sublist_flatten_of_mem member).length_le
    rwa [lines_flatten] at parts
  have onFile : ReadsBack files call ↔ (i + 1 = (lines '\n' content).length →
      call.buffer (realLine files call.location).length = '\x00' ∧
        (realLine files call.location).length + 2 ≠ 2 ^ 32) := by
    constructor
    · intro reads last
      exact reads content exists_ (by omega)
    · intro reads other exists_' last
      obtain rfl := Option.some.inj (exists_.symm.trans exists_')
      exact reads (by omega)
  rw [spec, onFile]
  unfold behind
  by_cases last : i + 1 = (lines '\n' content).length
  · rw [if_pos last]
    by_cases full : (realLine files call.location).length + 2 = 2 ^ 32
    · simp [last, full]
    · rw [List.length_singleton, if_neg full, Except.ok.injEq, Prod.mk.injEq, takeWhile_behind bytes]
      constructor
      · rintro ⟨ends, rfl⟩
        exact ⟨fun _ => ⟨ends, full⟩, rfl⟩
      · rintro ⟨ends, rfl⟩
        exact ⟨(ends last).1, rfl⟩
  · have room : (realLine files call.location).length + ([] : Text).length + 1 ≠ 2 ^ 32 := by
      rw [List.length_nil]
      omega
    rw [if_neg last, if_neg room, List.append_nil, takeWhile_free bytes]
    simp [last, eq_comm]

theorem run_real {files : Files} {manager : SourceManager} (cached : Cached files manager) {calls : List Call}
    (valid : ∀ call ∈ calls, Valid files call.location) :
    run files calls manager = .ok (calls.map fun call => realLine files call.location) ↔
      ∀ call ∈ calls, ReadsBack files call := by
  induction calls generalizing manager with
  | nil => simp [run]
  | cons call calls ih =>
    obtain ⟨after, cachedAfter, one⟩ := getLine_real cached (valid call List.mem_cons_self)
    have rest := ih cachedAfter fun other mem => valid other (List.mem_cons_of_mem call mem)
    rw [List.forall_mem_cons, run]
    constructor
    · intro returned
      obtain ⟨⟨line, manager'⟩, first, returned⟩ := bind_ok returned
      obtain ⟨others, below, returned⟩ := bind_ok returned
      obtain ⟨rfl, rfl⟩ := List.cons.inj (Except.ok.inj returned)
      obtain ⟨reads, rfl⟩ := (one manager').mp first
      exact ⟨reads, rest.mp below⟩
    · rintro ⟨reads, others⟩
      rw [(one after).mpr ⟨reads, rfl⟩]
      simp only [bind, Except.bind, rest.mpr others]
      rfl

/-- Every call returns its line; read from the first to the last, the lines are the file. -/
def ReturnsLines (files : Files) (calls : List Call) : Prop :=
  ∃ results, run files calls new = .ok results ∧
    results = calls.map (fun call => realLine files call.location) ∧
    ∀ path content, files path = some content →
      calls.map (fun call => (call.location.filePath, call.location.line.toInt)) =
        (List.range (lines '\n' content).length).map (fun i : Nat => (path, (i : Int) + 1)) →
      results.flatten = content

theorem realLine_whole {files : Files} {calls : List Call} {path content : Text}
    (exists_ : files path = some content)
    (whole : calls.map (fun call => (call.location.filePath, call.location.line.toInt)) =
      (List.range (lines '\n' content).length).map fun i : Nat => (path, (i : Int) + 1)) :
    (calls.map fun call => realLine files call.location).flatten = content := by
  have same : calls.map (fun call => realLine files call.location) = lines '\n' content := by
    apply List.ext_getElem?
    intro i
    have entry := congrArg (fun calls => calls[i]?) whole
    simp only [List.getElem?_map] at entry ⊢
    by_cases inside : i < (lines '\n' content).length
    · rw [List.getElem?_range inside, Option.map_some] at entry
      obtain ⟨call, found, placed⟩ := Option.map_eq_some_iff.mp entry
      obtain ⟨rfl, line⟩ := Prod.mk.inj placed
      rw [found, Option.map_some, realLine, exists_, line]
      simp [inside]
    · have outside := List.getElem?_eq_none (Nat.le_of_not_lt inside)
      have past : (List.range (lines '\n' content).length)[i]? = none := by simpa using inside
      rw [past, Option.map_none, Option.map_eq_none_iff] at entry
      rw [entry, outside]
      rfl
  rw [same, lines_flatten]

theorem returnsLines_iff {files : Files} {calls : List Call}
    (valid : ∀ call ∈ calls, Valid files call.location) :
    ReturnsLines files calls ↔ ∀ call ∈ calls, ReadsBack files call := by
  rw [← run_real (new_cached files) valid]
  constructor
  · rintro ⟨results, returned, rfl, -⟩
    exact returned
  · intro returned
    exact ⟨_, returned, rfl, fun path content exists_ whole => realLine_whole exists_ whole⟩

/-- One file, `a.c`. -/
def onlyFile (content : Text) : Files := fun path => if path = "a.c".toList then some content else none

def lineOf (line column : Int32) : SourceLocation where
  unitDirectory := []
  unitFilePath := []
  directory := []
  filePath := "a.c".toList
  line := line
  column := column

theorem returnsLines_iff_two :
    ReturnsLines (onlyFile "a;\nb;".toList) [⟨lineOf 1 1, fun _ => '?'⟩, ⟨lineOf 2 1, fun _ => '?'⟩] ↔
      ∀ call ∈ [(⟨lineOf 1 1, fun _ => '?'⟩ : Call), ⟨lineOf 2 1, fun _ => '?'⟩],
        ReadsBack (onlyFile "a;\nb;".toList) call := by
  apply returnsLines_iff
  intro call mem
  rcases List.mem_cons.mp mem with rfl | mem
  · exact ⟨_, rfl, by decide, by decide, 2, _, rfl, by decide, by decide⟩
  · obtain rfl := List.mem_singleton.mp mem
    exact ⟨_, rfl, by decide, by decide, 2, _, rfl, by decide, by decide⟩

/-- The last line has no newline, and the allocated memory is not zero. -/
theorem not_returnsLines_unended :
    ¬ ReturnsLines (onlyFile "a;\nb;".toList) [⟨lineOf 2 1, fun _ => '?'⟩] := by
  rintro ⟨results, returned, rfl, -⟩
  revert returned
  decide

end Mull.Reporters.SourceManager
