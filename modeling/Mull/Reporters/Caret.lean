import Mull.Reporters.RealLines
import Mull.Reporters.SourceCodeReader

/-! Where an excerpt shows its line and the caret under it. -/

namespace Mull.Reporters.SourceCodeReader
open Base SourceManager

/-- The source line with a newline. -/
def terminated (text : Text) : Text := text.takeWhile (· ≠ '\n') ++ ['\n']

/-- A caret in a column, with a tab before it where the line has one. -/
def caretUnder (text : Text) (column : Nat) : Text :=
  (text.take (column - 1)).map (fun c => if c = '\t' then '\t' else ' ') ++ ['^']

/-- A line of the output is the source line behind a label; the next one has the caret, as far to the right. -/
def Shows (label text : Text) (column : Nat) (output : Text) : Prop :=
  ∃ above below, lines '\n' output = above ++ (label ++ terminated text) ::
    (List.replicate label.length ' ' ++ caretUnder text column ++ ['\n']) :: below

/-- The location has a line and a column, as far as it has them, of a file that exists. -/
structure Inside (content : Text) (location : SourceLocation) : Prop where
  named : location.filePath ≠ []
  line : 0 ≤ location.line.toInt ∧ location.line.toInt ≤ (lines '\n' content).length
  column : 0 ≤ location.column.toInt ∧ ∀ i text, location.line.toInt = (i : Nat) + 1 →
    (lines '\n' content)[i]? = some text → location.column.toInt ≤ text.length

/-- Whatever was read before and whatever the memory holds, both functions return and show the line. -/
def Rendered (files : Files) (location : SourceLocation) : Prop :=
  ∀ manager memory, Cached files manager →
    ∃ plain context, (∃ after, getSourceLineWithCaret files memory location manager = .ok (plain, after)) ∧
      (∃ after, getContext files memory location manager = .ok (context, after)) ∧
      (0 < location.line.toInt → 0 < location.column.toInt →
        Shows [] (realLine files location) (toSize location.column) plain ∧
        ∃ width, Shows (setw width (toText location.line) ++ [':']) (realLine files location)
          (toSize location.column) context)

/-- The line ends with a newline and has no zero, and the column is before the newline. -/
structure Readable (content : Text) (location : SourceLocation) (i column : Nat)
    (text next : Text) : Prop where
  line : location.line.toInt = i + 1
  found : (lines '\n' content)[i]? = some text
  follows : (lines '\n' content)[i + 1]? = some next
  counted : i + 2 < 2 ^ 31
  small : lineStart (lines '\n' content) (i + 2) < 2 ^ 32 - 1
  free : '\x00' ∉ text
  position : location.column.toInt = column
  first : 0 < column
  inner : column < text.length

def Renderable (content : Text) (location : SourceLocation) : Prop :=
  ∃ i column text next, Readable content location i column text next ∧
    ∀ j previous, i = j + 1 → (lines '\n' content)[j]? = some previous → '\x00' ∉ previous

/-! ### The caret -/

theorem makeCaret_eq {text : Text} {column : Nat} (first : 0 < column) (inner : column ≤ text.length) :
    makeCaret text column = .ok (caretUnder text column) := by
  have positive : column ≠ 0 := Nat.ne_of_gt first
  unfold makeCaret
  dsimp only
  rw [if_neg positive]
  refine congrArg Except.ok ?_
  apply List.ext_getElem?
  intro i
  unfold caretUnder
  have count : ((text.take (column - 1)).map fun c => if c = '\t' then '\t' else ' ').length =
    column - 1 := by
    rw [List.length_map, List.length_take]
    omega
  rcases Nat.lt_trichotomy i (column - 1) with before | rfl | behind
  · have char : text[i]? = some text[i] := List.getElem?_eq_getElem (by omega)
    rw [List.getElem?_set_ne (by omega), List.getElem?_append_left (by omega), List.getElem?_map,
      List.getElem?_map, List.getElem?_take_of_lt before, List.getElem?_range (by omega)]
    simp [char]
  · have last : column - 1 < column := Nat.sub_lt first Nat.one_pos
    rw [List.getElem?_set_self (by simpa using last), List.getElem?_append_right (by omega), count]
    simp
  · rw [List.getElem?_eq_none, List.getElem?_eq_none]
    · rw [List.length_append, count, List.length_singleton]
      omega
    · rw [List.length_set, List.length_map, List.length_range]
      omega

theorem caretUnder_chars {text : Text} {column : Nat} {c : Char} (mem : c ∈ caretUnder text column) :
    c = '\t' ∨ c = ' ' ∨ c = '^' := by
  rcases List.mem_append.mp mem with spaces | caret
  · obtain ⟨d, -, rfl⟩ := List.mem_map.mp spaces
    split
    · exact .inl rfl
    · exact .inr (.inl rfl)
  · exact .inr (.inr (List.mem_singleton.mp caret))

/-! ### What is read -/

theorem lines_inner_free {content text : Text} {i : Nat} (found : (lines '\n' content)[i]? = some text) :
    '\n' ∉ text.dropLast := by
  have lined := lines_lined (d := '\n') content
  rcases Nat.lt_or_ge (i + 1) (lines '\n' content).length with inner | outer
  · obtain ⟨front, same, free⟩ := lined.ended inner
    obtain rfl := Option.some.inj (found.symm.trans same)
    rwa [List.dropLast_concat]
  · have free := lined.unended found outer
    intro mem
    exact free (List.dropLast_subset _ mem)

theorem behind_inner_free {content text : Text} {i : Nat} (found : (lines '\n' content)[i]? = some text)
    (buffer : Nat → Char) : '\n' ∉ (text ++ behind content buffer i text).dropLast := by
  unfold behind
  split
  · rename_i last
    rw [List.dropLast_concat]
    exact (lines_lined content).unended found (Nat.le_of_eq last.symm)
  · rw [List.append_nil]
    exact lines_inner_free found

theorem takeWhile_inner_free {text : Text} (inner : '\n' ∉ text.dropLast) :
    '\n' ∉ (text.takeWhile (· ≠ '\x00')).dropLast := by
  obtain ⟨rest, parts⟩ := List.takeWhile_prefix (l := text) (· ≠ '\x00')
  by_cases whole : rest = []
  · rw [whole, List.append_nil] at parts
    rwa [parts]
  · rw [← parts, List.dropLast_append_of_ne_nil whole] at inner
    intro mem
    exact inner (List.mem_append_left _ (List.dropLast_subset _ mem))

section
variable {files : Files} {manager : SourceManager} {content : Text} {location : SourceLocation}
  {i column : Nat} {text next : Text}

theorem getLine_ok (cached : Cached files manager) (exists_ : files location.filePath = some content)
    (line : location.line.toInt = i + 1) (found : (lines '\n' content)[i]? = some text)
    (small : lineStart (lines '\n' content) (i + 1) < 2 ^ 32 - 1)
    (room : text.length + 2 < 2 ^ 32 ∨ i + 1 < (lines '\n' content).length) (buffer : Nat → Char) :
    ∃ after, Cached files after ∧ getLine files buffer location manager =
      .ok ((text ++ behind content buffer i text).takeWhile (· ≠ '\x00'), after) := by
  obtain ⟨after, cachedAfter, spec⟩ := getLine_spec cached exists_ line found small buffer
  refine ⟨after, cachedAfter, ?_⟩
  have one := behind_length content buffer i text
  rw [lineStart_succ found] at small
  have fits : text.length + (behind content buffer i text).length + 1 ≠ 2 ^ 32 := by
    rw [one]
    split <;> omega
  rw [spec, if_neg fits]

theorem behind_inner {buffer : Nat → Char} (more : i + 1 < (lines '\n' content).length) :
    behind content buffer i text = [] := if_neg (Nat.ne_of_lt more)

theorem follows_lt {i : Nat} (follows : (lines '\n' content)[i + 1]? = some next) :
    i + 1 < (lines '\n' content).length := (List.getElem?_eq_some_iff.mp follows).1

theorem available_of (lineFirst : location.line.toInt ≠ 0) (columnFirst : location.column.toInt ≠ 0)
    (named : location.filePath ≠ []) :
    ¬ (location.isNull || location.line == 0 || location.column == 0 || location.filePath.isEmpty) = true := by
  have line : location.line ≠ 0 := by
    intro zero
    rw [zero] at lineFirst
    exact lineFirst rfl
  have column : location.column ≠ 0 := by
    intro zero
    rw [zero] at columnFirst
    exact columnFirst rfl
  simp [SourceLocation.isNull, line, column, named]

namespace Readable

theorem small' (readable : Readable content location i column text next) :
    lineStart (lines '\n' content) (i + 1) + next.length < 2 ^ 32 - 1 := by
  rw [← lineStart_succ readable.follows]
  exact readable.small

theorem getLine_own (readable : Readable content location i column text next) (cached : Cached files manager)
    (exists_ : files location.filePath = some content) (buffer : Nat → Char) :
    ∃ after, Cached files after ∧ getLine files buffer location manager = .ok (text, after) := by
  have more := follows_lt readable.follows
  have small : lineStart (lines '\n' content) (i + 1) < 2 ^ 32 - 1 := by
    have fits := readable.small'
    omega
  obtain ⟨after, cachedAfter, read⟩ :=
    getLine_ok cached exists_ readable.line readable.found small (.inr more) buffer
  rw [behind_inner more, List.append_nil, takeWhile_free readable.free] at read
  exact ⟨after, cachedAfter, read⟩

theorem plain (readable : Readable content location i column text next) (cached : Cached files manager)
    (exists_ : files location.filePath = some content) (memory : Memory) :
    ∃ after, getSourceLineWithCaret files memory location manager =
      .ok (text ++ caretUnder text column ++ ['\n'], after) := by
  obtain ⟨after, -, read⟩ := readable.getLine_own cached exists_ (memory location.line)
  refine ⟨after, ?_⟩
  unfold getSourceLineWithCaret
  rw [read, toSize_of readable.position]
  simp only [bind, Except.bind]
  rw [if_neg (not_not_intro readable.inner), makeCaret_eq readable.first (Nat.le_of_lt readable.inner)]
  rfl

/-! ### The context -/

theorem previous (readable : Readable content location i column text next) (cached : Cached files manager)
    (exists_ : files location.filePath = some content) (memory : Memory) (digits : Nat) :
    ∃ above after, Cached files after ∧
      otherLine files memory location digits (1 < location.line) (location.line - 1) manager =
        .ok (above, after) ∧
      (i = 0 → above = []) ∧
      ∀ j previous, i = j + 1 → (lines '\n' content)[j]? = some previous →
        above = numbered digits (location.line - 1) (previous.takeWhile (· ≠ '\x00')) := by
  have one : (1 : Int32).toInt = 1 := rfl
  have line := readable.line
  cases i with
  | zero =>
    have start : ¬ 1 < location.line := by
      rw [Int32.lt_iff_toInt_lt, line, one]
      omega
    refine ⟨[], manager, cached, if_neg (by simpa using start), fun _ => rfl, ?_⟩
    intro j previous impossible
    cases impossible
  | succ j =>
    have later : 1 < location.line := by
      rw [Int32.lt_iff_toInt_lt, line, one]
      omega
    have more := follows_lt readable.follows
    have inside : j < (lines '\n' content).length := by omega
    have pred : (location.line - 1).toInt = (j : Nat) + 1 := by
      have value := toSize_pred line
      have small := Int32.toInt_lt location.line
      rw [Int32.toInt_sub, line, one, Int.bmod_def]
      omega
    have small : lineStart (lines '\n' content) (j + 1) < 2 ^ 32 - 1 := by
      have fits := readable.small'
      rw [lineStart_succ readable.found] at fits
      omega
    obtain ⟨after, cachedAfter, read⟩ := @getLine_ok _ _ _
      { location with line := location.line - 1 } _ _ cached
      exists_ pred (List.getElem?_eq_getElem inside) small (.inr (by omega)) (memory (location.line - 1))
    rw [behind_inner (by omega), List.append_nil] at read
    refine ⟨numbered digits (location.line - 1) ((lines '\n' content)[j].takeWhile (· ≠ '\x00')),
      after, cachedAfter, ?_, by simp, ?_⟩
    · rw [otherLine, if_pos (decide_eq_true later), read]
      rfl
    · intro k previous same found
      obtain rfl : j = k := by omega
      rw [List.getElem?_eq_getElem inside] at found
      rw [Option.some.inj found]

theorem below (readable : Readable content location i column text next) (cached : Cached files manager)
    (exists_ : files location.filePath = some content) (memory : Memory) (digits : Nat) :
    ∃ content' after, Cached files after ∧
      otherLine files memory location digits (toSize location.line < (lines '\n' content).length)
        (location.line + 1) manager = .ok (numbered digits (location.line + 1) content', after) ∧
      '\n' ∉ content'.dropLast := by
  have one : (1 : Int32).toInt = 1 := rfl
  have line := readable.line
  have counted := readable.counted
  have succ : (location.line + 1).toInt = ((i + 1 : Nat) : Int) + 1 := by
    rw [Int32.toInt_add, line, one, Int.bmod_def]
    omega
  have fits := readable.small'
  rw [lineStart_succ readable.found] at fits
  have inner := readable.inner
  have first := readable.first
  obtain ⟨after, cachedAfter, read⟩ := @getLine_ok _ _ _
    { location with line := location.line + 1 } _ _ cached
    exists_ succ readable.follows readable.small (.inl (by omega)) (memory (location.line + 1))
  refine ⟨_, after, cachedAfter, ?_,
    takeWhile_inner_free (behind_inner_free readable.follows (memory (location.line + 1)))⟩
  have lineValue : location.line.toInt = (i + 1 : Nat) := line
  have more := follows_lt readable.follows
  rw [otherLine, if_pos (by simpa [toSize_of lineValue] using more), read]
  rfl

theorem digits_fit (readable : Readable content location i column text next) :
    (toText location.line).length ≤
      maxDigits (min (lines '\n' content).length (toSize (location.line + 1))) := by
  have one : (1 : Int32).toInt = 1 := rfl
  have line := readable.line
  have counted := readable.counted
  have more := follows_lt readable.follows
  have succ : (location.line + 1).toInt = ((i + 2 : Nat) : Int) := by
    rw [Int32.toInt_add, line, one, Int.bmod_def]
    omega
  have least : min (lines '\n' content).length (toSize (location.line + 1)) = i + 2 := by
    rw [toSize_of succ]
    omega
  have positive : ¬ location.line.toInt < 0 := by omega
  have value : location.line.toInt.natAbs = i + 1 := by omega
  have power : i + 2 < 10 ^ (Nat.log 10 (i + 2) + 1) := Nat.lt_pow_succ_log_self (by decide) _
  rw [least, maxDigits, if_neg (Nat.succ_ne_zero _), toText, if_neg positive, value,
    Nat.length_toDigits_le_iff (by decide) (Nat.succ_pos _)]
  omega

theorem context (readable : Readable content location i column text next) (cached : Cached files manager)
    (exists_ : files location.filePath = some content) (named : location.filePath ≠ []) (memory : Memory) :
    ∃ digits above below after, getContext files memory location manager =
      .ok (above ++ (numbered digits location.line text ++
        (List.replicate (digits + 1) ' ' ++ caretUnder text column) ++ ['\n']) ++ below, after) ∧
      (toText location.line).length ≤ digits ∧
      (∃ content', below = numbered digits (location.line + 1) content' ∧ '\n' ∉ content'.dropLast) ∧
      (i = 0 → above = []) ∧
      ∀ j previous, i = j + 1 → (lines '\n' content)[j]? = some previous →
        above = numbered digits (location.line - 1) (previous.takeWhile (· ≠ '\x00')) := by
  obtain ⟨counted, cachedCounted, count⟩ := getNumberOfLines_spec cached exists_
  obtain ⟨own, cachedOwn, read⟩ := readable.getLine_own cachedCounted exists_ (memory location.line)
  obtain ⟨above, earlier, cachedEarlier, readAbove, start, later⟩ :=
    readable.previous cachedOwn exists_ memory
    (maxDigits (min (lines '\n' content).length (toSize (location.line + 1))))
  obtain ⟨content', after, -, readBelow, inner⟩ := readable.below cachedEarlier exists_ memory
    (maxDigits (min (lines '\n' content).length (toSize (location.line + 1))))
  have line := readable.line
  have position := readable.position
  have first := readable.first
  have available := available_of (by omega) (by omega) named
  refine ⟨_, above, _, after, ?_, readable.digits_fit, ⟨content', rfl, inner⟩, start, later⟩
  unfold getContext
  rw [if_neg available, if_neg (by simp [exists_]), count]
  simp only [bind, Except.bind]
  rw [read, toSize_of readable.position]
  dsimp only
  rw [if_neg (not_not_intro readable.inner), makeCaret_eq readable.first (Nat.le_of_lt readable.inner)]
  dsimp only
  rw [readAbove]
  dsimp only
  rw [readBelow]
  rfl

end Readable

end

/-! ### What is shown -/

theorem setw_free {c : Char} (blank : c ≠ ' ') (sign : c ≠ '-') (digit : c.isDigit = false) (width : Nat)
    (line : Int32) : c ∉ setw width (toText line) := by
  intro mem
  rcases List.mem_append.mp mem with spaces | number
  · exact blank (List.eq_of_mem_replicate spaces)
  · exact toText_free sign digit line number

theorem label_free (width : Nat) (line : Int32) : '\n' ∉ setw width (toText line) ++ [':'] := by
  intro mem
  rcases List.mem_append.mp mem with number | colon
  · exact setw_free (by decide) (by decide) (by decide) width line number
  · exact absurd (List.mem_singleton.mp colon) (by decide)

theorem caret_free {c : Char} (tab : c ≠ '\t') (blank : c ≠ ' ') (caret : c ≠ '^') (n : Nat) (text : Text)
    (column : Nat) : c ∉ List.replicate n ' ' ++ caretUnder text column := by
  intro mem
  rcases List.mem_append.mp mem with spaces | mem
  · exact blank (List.eq_of_mem_replicate spaces)
  · rcases caretUnder_chars mem with same | same | same
    · exact tab same
    · exact blank same
    · exact caret same

theorem terminated_ended {front : Text} (free : '\n' ∉ front) :
    terminated (front ++ ['\n']) = front ++ ['\n'] := by
  have whole : ∀ c ∈ front, decide (c ≠ '\n') = true := by
    intro c mem
    exact decide_eq_true fun same => free (same ▸ mem)
  unfold terminated
  rw [List.takeWhile_append_of_pos whole]
  simp

theorem lines_labelled {label front : Text} (labelFree : '\n' ∉ label) (free : '\n' ∉ front) (rest : Text) :
    lines '\n' (label ++ (front ++ ['\n']) ++ rest) = (label ++ (front ++ ['\n'])) :: lines '\n' rest := by
  have both : '\n' ∉ label ++ front := by
    intro mem
    exact (List.mem_append.mp mem).elim labelFree free
  have ended := lines_ended both rest
  simpa using ended

theorem lines_caret (n : Nat) (text : Text) (column : Nat) (rest : Text) :
    lines '\n' (List.replicate n ' ' ++ caretUnder text column ++ ['\n'] ++ rest) =
      (List.replicate n ' ' ++ caretUnder text column ++ ['\n']) :: lines '\n' rest := by
  have free : '\n' ∉ List.replicate n ' ' ++ caretUnder text column :=
    caret_free (by decide) (by decide) (by decide) n text column
  have ended := lines_ended free rest
  simpa using ended

theorem label_length {width : Nat} {line : Int32} (fits : (toText line).length ≤ width) :
    (setw width (toText line) ++ [':']).length = width + 1 := by
  simp only [setw, List.length_append, List.length_replicate, List.length_singleton]
  omega

theorem lines_excerpt {label front : Text} (labelFree : '\n' ∉ label) (free : '\n' ∉ front) (text : Text)
    (column : Nat) (rest : Text) :
    lines '\n'
      (label ++ (front ++ ['\n']) ++ (List.replicate label.length ' ' ++ caretUnder text column) ++ ['\n'] ++
        rest) =
      (label ++ (front ++ ['\n'])) ::
        (List.replicate label.length ' ' ++ caretUnder text column ++ ['\n']) :: lines '\n' rest := by
  have first := lines_labelled labelFree free
    (List.replicate label.length ' ' ++ caretUnder text column ++ ['\n'] ++ rest)
  rw [lines_caret] at first
  rw [← first]
  simp only [List.append_assoc]

theorem realLine_eq {files : Files} {content : Text} {location : SourceLocation}
    (exists_ : files location.filePath = some content) {i : Nat}
    (line : location.line.toInt = i + 1) {text : Text}
    (found : (lines '\n' content)[i]? = some text) : realLine files location = text := by
  have index : location.line.toInt.toNat - 1 = i := by omega
  rw [realLine, exists_]
  dsimp only
  rw [index, List.getD_eq_getElem?_getD, found]
  rfl

theorem numbered_eq (width : Nat) (line : Int32) (content : Text) :
    numbered width line content = setw width (toText line) ++ [':'] ++ content := by
  simp [numbered]

theorem Renderable.rendered {files : Files} {content : Text} {location : SourceLocation}
    (exists_ : files location.filePath = some content) (named : location.filePath ≠ [])
    (renderable : Renderable content location) : Rendered files location := by
  obtain ⟨i, column, text, next, readable, clean⟩ := renderable
  intro manager memory cached
  obtain ⟨afterPlain, plain⟩ := readable.plain cached exists_ memory
  obtain ⟨digits, above, below, afterContext, context, fits, -, start, later⟩ :=
    readable.context cached exists_ named memory
  refine ⟨_, _, ⟨afterPlain, plain⟩, ⟨afterContext, context⟩, ?_⟩
  intro _ _
  obtain ⟨front, ended, free⟩ := (lines_lined content).ended (follows_lt readable.follows)
  obtain rfl := Option.some.inj (readable.found.symm.trans ended)
  rw [realLine_eq exists_ readable.line readable.found, toSize_of readable.position]
  constructor
  · refine ⟨[], [[]], ?_⟩
    have shown := @lines_excerpt [] _ List.not_mem_nil free (front ++ ['\n']) column []
    rw [terminated_ended free]
    simpa [lines] using shown
  · refine ⟨digits, ?_⟩
    have labelFree := label_free digits location.line
    have shown := lines_excerpt labelFree free (front ++ ['\n']) column below
    rw [label_length fits] at shown
    unfold Shows
    rw [terminated_ended free, label_length fits, numbered_eq]
    cases i with
    | zero =>
      refine ⟨[], lines '\n' below, ?_⟩
      rw [start rfl, List.nil_append, List.nil_append]
      exact shown
    | succ j =>
      have inside := Nat.lt_of_succ_lt (follows_lt readable.follows)
      obtain ⟨frontAbove, endedAbove, freeAbove⟩ := (lines_lined content).ended inside
      have noZero := clean j _ rfl endedAbove
      rw [later j _ rfl endedAbove, takeWhile_free noZero, numbered_eq]
      refine ⟨[setw digits (toText (location.line - 1)) ++ [':'] ++ (frontAbove ++ ['\n'])],
        lines '\n' below, ?_⟩
      rw [List.append_assoc _ _ below, lines_labelled (label_free digits (location.line - 1))
        freeAbove, shown]
      rfl

/-! ### What is not shown -/

theorem not_shows_alone {text line : Text} {column : Nat} (free : '\n' ∉ line) :
    ¬ Shows [] text column (line ++ ['\n']) := by
  rintro ⟨above, below, shown⟩
  rw [lines_ended free] at shown
  have both := congrArg List.length shown
  simp only [lines, List.length_append, List.length_cons, List.length_nil] at both
  have start : above = [] := List.length_eq_zero_iff.mp (by omega)
  rw [start, List.nil_append] at shown
  have next := (List.cons.inj (List.cons.inj shown).2).1
  simp [caretUnder] at next

/-- With a line before that has no newline, the line does not begin where its label does. -/
theorem not_shows_behind {above front text : Text} {column digits width : Nat} {line : Int32}
    {below content' : Text}
    (unended : '\n' ∉ above) (colon : ':' ∈ above) (free : '\n' ∉ front) (ended : text = front ++ ['\n'])
    (numberedBelow : below = numbered digits (line + 1) content') (inner : '\n' ∉ content'.dropLast) :
    ¬ Shows (setw width (toText line) ++ [':']) text column (above ++ (numbered digits line text ++
      (List.replicate (digits + 1) ' ' ++ caretUnder text column) ++ ['\n']) ++ below) := by
  subst ended
  rintro ⟨before, after, shown⟩
  have labelFree : '\n' ∉ above ++ (setw digits (toText line) ++ [':']) := by
    intro mem
    exact (List.mem_append.mp mem).elim unended (label_free digits line)
  have first := lines_labelled labelFree free
    (List.replicate (digits + 1) ' ' ++ caretUnder (front ++ ['\n']) column ++ ['\n'] ++ below)
  rw [lines_caret] at first
  rw [terminated_ended free, numbered_eq] at shown
  simp only [List.append_assoc] at first shown
  rw [first] at shown
  match before with
  | [] =>
    -- a label has only one colon
    have same := (List.cons.inj shown).1
    rw [← List.append_assoc] at same
    have numbers := List.append_cancel_right same
    have number := setw_free (c := ':') (by decide) (by decide) (by decide) width line
    rw [← numbers] at number
    exact number (List.mem_append_left _ colon)
  | [_] =>
    have same := (List.cons.inj (List.cons.inj shown).2).1
    have caret := caret_free (c := ':') (by decide) (by decide) (by decide) (digits + 1)
      (front ++ ['\n']) column
    have mem : ':' ∈ List.replicate (digits + 1) ' ' ++ (caretUnder (front ++ ['\n']) column ++ ['\n']) := by
      rw [same]
      simp
    rw [← List.append_assoc] at mem
    rcases List.mem_append.mp mem with mem | mem
    · exact caret mem
    · exact absurd (List.mem_singleton.mp mem) (by decide)
  | _ :: _ :: before =>
    have rest := (List.cons.inj (List.cons.inj shown).2).2
    have innerBelow : '\n' ∉ below.dropLast := by
      by_cases empty : content' = []
      · rw [numberedBelow, numbered_eq, empty, List.append_nil]
        intro mem
        exact label_free digits (line + 1) (List.dropLast_subset _ mem)
      · rw [numberedBelow, numbered_eq, List.dropLast_append_of_ne_nil empty]
        intro mem
        exact (List.mem_append.mp mem).elim (label_free digits (line + 1)) inner
    have caret := lines_inner_next innerBelow rest
    simp at caret

/-! ### What returns -/

section
variable {files : Files} {manager : SourceManager} {content : Text} {location : SourceLocation}

theorem getLine_line (cached : Cached files manager) (exists_ : files location.filePath = some content)
    {buffer : Nat → Char} {line : Text} {after : SourceManager}
    (ok : getLine files buffer location manager = .ok (line, after)) :
    Cached files after ∧ toSize location.line ≤ (lines '\n' content).length ∧
      toSize (location.line - 1) ≤ (lines '\n' content).length := by
  obtain ⟨opened, open_, cachedAfter⟩ := getLineOffset_spec cached exists_
  unfold getLine at ok
  rw [open_] at ok
  simp only [bind, Except.bind, table_length] at ok
  split at ok
  · cases ok
  · rename_i inside
    split at ok
    · rename_i lineBegin found
      obtain ⟨before, -⟩ := List.getElem?_eq_some_iff.mp found
      rw [table_length] at before
      split at ok
      · split at ok
        · cases ok
        · cases ok
          exact ⟨cachedAfter, by omega, by omega⟩
      · cases ok
    · cases ok

theorem getSourceLineWithCaret_ok {memory : Memory} {plain : Text} {after : SourceManager}
    (ok : getSourceLineWithCaret files memory location manager = .ok (plain, after)) :
    ∃ line, getLine files (memory location.line) location manager = .ok (line, after) ∧
      0 < toSize location.column ∧ toSize location.column < line.length ∧
      plain = line ++ caretUnder line (toSize location.column) ++ ['\n'] := by
  obtain ⟨⟨line, between⟩, read, ok⟩ := bind_ok ok
  dsimp only at ok
  split at ok
  · cases ok
  · rename_i inner
    obtain ⟨caret, made, ok⟩ := bind_ok ok
    have first : 0 < toSize location.column := by
      refine Nat.pos_of_ne_zero ?_
      intro zero
      rw [zero] at made
      cases made
    rw [makeCaret_eq first (Nat.le_of_lt (not_not.mp inner))] at made
    cases made
    cases ok
    exact ⟨line, read, first, not_not.mp inner, rfl⟩

theorem otherLine_ok (cached : Cached files manager) (exists_ : files location.filePath = some content)
    {memory : Memory} {digits : Nat} {present : Bool} {line : Int32} {text : Text} {after : SourceManager}
    (ok : otherLine files memory location digits present line manager = .ok (text, after)) :
    Cached files after ∧ (present = true → toSize line ≤ (lines '\n' content).length) := by
  cases present with
  | false =>
    cases ok
    exact ⟨cached, fun absent => by cases absent⟩
  | true =>
    obtain ⟨⟨content', between⟩, read, ok⟩ := bind_ok ok
    cases ok
    obtain ⟨cachedAfter, inside, -⟩ :=
      @getLine_line _ _ _ { location with line := line } cached exists_ _ _ _ read
    exact ⟨cachedAfter, fun _ => inside⟩

theorem getContext_ok (cached : Cached files manager) (exists_ : files location.filePath = some content)
    (available : ¬ (location.isNull || location.line == 0 || location.column == 0 ||
      location.filePath.isEmpty) = true)
    {memory : Memory} {context : Text} {after : SourceManager}
    (ok : getContext files memory location manager = .ok (context, after))
    (more : toSize location.line < (lines '\n' content).length) :
    toSize (location.line + 1) ≤ (lines '\n' content).length := by
  obtain ⟨counted, cachedCounted, count⟩ := getNumberOfLines_spec cached exists_
  unfold getContext at ok
  rw [if_neg available, if_neg (by simp [exists_]), count] at ok
  obtain ⟨_, same, ok⟩ := bind_ok ok
  obtain rfl := Except.ok.inj same
  obtain ⟨⟨line, own⟩, read, ok⟩ := bind_ok ok
  dsimp only at ok
  split at ok
  · cases ok
  · obtain ⟨caret, -, ok⟩ := bind_ok ok
    obtain ⟨⟨above, earlier⟩, readAbove, ok⟩ := bind_ok ok
    obtain ⟨⟨below, later⟩, readBelow, ok⟩ := bind_ok ok
    obtain ⟨cachedOwn, -⟩ := getLine_line cachedCounted exists_ read
    obtain ⟨cachedEarlier, -⟩ := otherLine_ok cachedOwn exists_ readAbove
    obtain ⟨-, inside⟩ := otherLine_ok cachedEarlier exists_ readBelow
    exact inside (decide_eq_true more)

end

/-! ### The condition is necessary -/

theorem takeWhile_cut {text : Text} (inner : '\n' ∉ text.dropLast) (zero : '\x00' ∈ text) :
    '\n' ∉ text.takeWhile (· ≠ '\x00') := by
  obtain ⟨rest, parts⟩ := List.takeWhile_prefix (l := text) (· ≠ '\x00')
  have cut : rest ≠ [] := by
    rintro rfl
    rw [List.append_nil] at parts
    rw [← parts] at zero
    simpa using List.mem_takeWhile_imp zero
  rw [← parts, List.dropLast_append_of_ne_nil cut] at inner
  intro mem
  exact inner (List.mem_append_left _ mem)

theorem takeWhile_zeros {content text : Text} {i : Nat} :
    (text ++ behind content (fun _ => '\x00') i text).takeWhile (· ≠ '\x00') =
      text.takeWhile (· ≠ '\x00') := by
  unfold behind
  split
  · rw [List.takeWhile_append]
    split
    · rename_i whole
      have same := (List.takeWhile_prefix (l := text) (· ≠ '\x00')).eq_of_length whole
      rw [same]
      simp
    · rfl
  · rw [List.append_nil]

theorem Rendered.line {files : Files} {content : Text} {location : SourceLocation}
    (rendered : Rendered files location) (exists_ : files location.filePath = some content)
    (small : content.length < 2 ^ 32 - 1) : location.line.toInt ≠ 0 := by
  intro zero
  obtain ⟨plain, -, ⟨after, returned⟩, -⟩ := rendered new (fun _ _ => '\x00') (new_cached files)
  obtain ⟨line, read, -⟩ := getSourceLineWithCaret_ok returned
  obtain ⟨-, -, inside⟩ := getLine_line (new_cached files) exists_ read
  have count := lines_length_le '\n' content
  have one : (1 : Int32).toInt = 1 := rfl
  rw [toSize, Int32.toInt_sub, zero, one, Int.bmod_def] at inside
  omega

theorem Rendered.readable {files : Files} {content : Text} {location : SourceLocation}
    (rendered : Rendered files location) (exists_ : files location.filePath = some content)
    (small : content.length < 2 ^ 32 - 1) (inside : Inside content location) :
    ∃ i column text next, location.line.toInt = (i : Nat) + 1 ∧ (lines '\n' content)[i]? = some text ∧
      (lines '\n' content)[i + 1]? = some next ∧ '\x00' ∉ text ∧
      location.column.toInt = (column : Nat) ∧ 0 < column ∧
      column < text.length := by
  have line := rendered.line exists_ small
  obtain ⟨plain, _, ⟨after, returned⟩, -, shows_⟩ := rendered new (fun _ _ => '\x00') (new_cached files)
  obtain ⟨read, got, first, inner, rfl⟩ := getSourceLineWithCaret_ok returned
  obtain ⟨columnFirst, -⟩ := inside.column
  have position : location.column.toInt = (location.column.toInt.toNat : Nat) :=
    (Int.toNat_of_nonneg columnFirst).symm
  rw [toSize_of position] at first inner
  have lineFirst := inside.line
  have value : location.line.toInt = ((location.line.toInt.toNat - 1 : Nat) : Int) + 1 := by omega
  have within : location.line.toInt.toNat - 1 < (lines '\n' content).length := by omega
  have found := List.getElem?_eq_getElem within
  have reach : lineStart (lines '\n' content) (location.line.toInt.toNat - 1 + 1) < 2 ^ 32 - 1 := by
    have whole := lineStart_le (lines '\n' content) (location.line.toInt.toNat - 1 + 1)
    rw [lines_flatten] at whole
    omega
  obtain ⟨between, -, spec⟩ := getLine_spec (new_cached files) exists_ value found reach (fun _ => '\x00')
  rw [got] at spec
  split at spec
  · cases spec
  · obtain ⟨rfl, -⟩ := Prod.mk.inj (Except.ok.inj spec)
    rw [takeWhile_zeros] at inner shows_
    have shown := (shows_ (by omega) (by omega)).1
    rw [realLine_eq exists_ value found] at shown
    generalize (lines '\n' content)[location.line.toInt.toNat - 1] = text at found inner shown
    have newline : '\n' ∈ text.takeWhile (· ≠ '\x00') := by
      by_contra unended
      refine not_shows_alone ?_ shown
      intro mem
      rcases List.mem_append.mp mem with mem | mem
      · exact unended mem
      · have caret := caret_free (c := '\n') (by decide) (by decide) (by decide) 0
          (text.takeWhile (· ≠ '\x00')) (toSize location.column)
        exact caret mem
    have free : '\x00' ∉ text := by
      intro zero
      exact takeWhile_cut (lines_inner_free found) zero newline
    rw [takeWhile_free free] at newline inner
    have more : location.line.toInt.toNat - 1 + 1 < (lines '\n' content).length := by
      by_contra outer
      exact (lines_lined content).unended found (Nat.le_of_not_lt outer) newline
    exact ⟨_, _, _, _, value, found, List.getElem?_eq_getElem more, free, position, first, inner⟩

theorem Rendered.renderable {files : Files} {content : Text} {location : SourceLocation}
    (rendered : Rendered files location) (exists_ : files location.filePath = some content)
    (small : content.length < 2 ^ 32 - 1) (inside : Inside content location) :
      Renderable content location := by
  obtain ⟨i, column, text, next, line, found, follows, free, position, first, inner⟩ :=
    rendered.readable exists_ small inside
  obtain ⟨_, excerpt, -, ⟨after, returned⟩, shows_⟩ := rendered new (fun _ _ => '\x00') (new_cached files)
  have reach : lineStart (lines '\n' content) (i + 2) < 2 ^ 32 - 1 := by
    have whole := lineStart_le (lines '\n' content) (i + 2)
    rw [lines_flatten] at whole
    omega
  have more := follows_lt follows
  have available := available_of (by omega) (by omega) inside.named
  have counted : i + 2 < 2 ^ 31 := by
    by_contra large
    have value : location.line.toInt = (i + 1 : Nat) := line
    have next := getContext_ok (new_cached files) exists_ available returned
      (by rw [toSize_of value]; exact more)
    have bound := Int32.toInt_lt location.line
    have count := lines_length_le '\n' content
    have one : (1 : Int32).toInt = 1 := rfl
    have last : (i : Int) + 1 + 1 = 2 ^ 31 := by omega
    have wrapped : Int.bmod (2 ^ 31) (2 ^ 32) = -2 ^ 31 := by decide
    rw [toSize, Int32.toInt_add, line, one, last, wrapped] at next
    omega
  have readable : Readable content location i column text next :=
    ⟨line, found, follows, counted, reach, free, position, first, inner⟩
  refine ⟨i, column, text, next, readable, ?_⟩
  intro j above same foundAbove zero
  obtain ⟨digits, before, below, last, context, fits, ⟨content', numberedBelow, innerBelow⟩, -, later⟩ :=
    readable.context (new_cached files) exists_ inside.named (fun _ _ => '\x00')
  rw [context] at returned
  obtain ⟨rfl, -⟩ := Prod.mk.inj (Except.ok.inj returned)
  obtain ⟨-, width, shown⟩ := shows_ (by omega) (by omega)
  rw [realLine_eq exists_ line found, toSize_of position] at shown
  obtain ⟨front, ended, frontFree⟩ := (lines_lined content).ended more
  obtain rfl := Option.some.inj (found.symm.trans ended)
  refine not_shows_behind ?_ ?_ frontFree rfl numberedBelow innerBelow shown
  · rw [later j above same foundAbove, numbered_eq]
    intro mem
    exact (List.mem_append.mp mem).elim (label_free digits (location.line - 1))
      (takeWhile_cut (lines_inner_free foundAbove) zero)
  · rw [later j above same foundAbove, numbered_eq]
    simp

/-- For a position inside a file; the offsets of longer files wrap, which may or may not go wrong. -/
theorem rendered_iff {files : Files} {content : Text} {location : SourceLocation}
    (exists_ : files location.filePath = some content) (inside : Inside content location) :
    (Renderable content location → Rendered files location) ∧
      (content.length < 2 ^ 32 - 1 → Rendered files location → Renderable content location) := by
  constructor
  · intro renderable
    exact renderable.rendered exists_ inside.named
  · intro small rendered
    exact rendered.renderable exists_ small inside

theorem inside_lineOf {content text : Text} {line column : Int32} {i : Nat} (value : line.toInt = i + 1)
    (found : (lines '\n' content)[i]? = some text) (first : 0 ≤ column.toInt)
    (within : column.toInt ≤ text.length) :
    Inside content (lineOf line column) := by
  have counted := (List.getElem?_eq_some_iff.mp found).1
  refine ⟨by simp [lineOf], ⟨?_, ?_⟩, first, ?_⟩
  · show 0 ≤ line.toInt
    omega
  · show line.toInt ≤ _
    omega
  · intro j other value' found'
    have index : (lineOf line column).line.toInt = (i : Int) + 1 := value
    obtain rfl : i = j := by omega
    obtain rfl := Option.some.inj (found.symm.trans found')
    exact within

theorem rendered_iff_second : Rendered (onlyFile "a;\n\tb = c;\nd;\n".toList) (lineOf 2 4) := by
  have inside : Inside "a;\n\tb = c;\nd;\n".toList (lineOf 2 4) :=
    @inside_lineOf _ "\tb = c;\n".toList 2 4 1 rfl rfl (by decide) (by decide)
  have exists_ : onlyFile "a;\n\tb = c;\nd;\n".toList (lineOf 2 4).filePath =
    some "a;\n\tb = c;\nd;\n".toList := rfl
  refine (rendered_iff exists_ inside).1 ?_
  refine ⟨1, 4, "\tb = c;\n".toList, "d;\n".toList, ?_, ?_⟩
  · exact ⟨rfl, by decide, by decide, by decide, by decide, by decide, rfl, by decide, by decide⟩
  · intro j previous same found
    obtain rfl : j = 0 := by omega
    obtain rfl : "a;\n".toList = previous := Option.some.inj found
    decide

/-- The last character of a file that does not end with a newline; and a line without a column. -/
theorem not_rendered_last :
    (Inside "a;\nb;".toList (lineOf 2 2) ∧ (lineOf 2 2).isNull = false ∧
      ¬ Rendered (onlyFile "a;\nb;".toList) (lineOf 2 2)) ∧
    (Inside "a;\nb;".toList (lineOf 1 0) ∧ (lineOf 1 0).isNull = false ∧
      ¬ Rendered (onlyFile "a;\nb;".toList) (lineOf 1 0)) := by
  have last := @inside_lineOf "a;\nb;".toList "b;".toList 2 2 1
  have bare := @inside_lineOf "a;\nb;".toList "a;\n".toList 1 0 0
  refine ⟨⟨last rfl rfl (by decide) (by decide), rfl, ?_⟩, ⟨bare rfl rfl (by decide) (by decide), rfl, ?_⟩⟩
  · intro rendered
    obtain ⟨plain, _, ⟨after, returned⟩, -⟩ := rendered new (fun _ _ => '\x00') (new_cached _)
    obtain ⟨line, read, -, inner, -⟩ := getSourceLineWithCaret_ok returned
    cases read
    exact absurd inner (by decide)
  · intro rendered
    obtain ⟨plain, _, ⟨after, returned⟩, -⟩ := rendered new (fun _ _ => '\x00') (new_cached _)
    obtain ⟨line, read, first, -⟩ := getSourceLineWithCaret_ok returned
    exact absurd first (by decide)

end Mull.Reporters.SourceCodeReader
