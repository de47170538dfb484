import Mull.Filters.GitDiff

/-! The text of `git diff -U0`, and what the reader makes of it: a hunk is filed under the name that was read
last, and an added line can read like a name. -/

namespace Mull.Filters
open Base

/-- A name that is printed as it is: without quotes and without a tab after it. -/
def IsGitName (name : Text) : Prop :=
  name ≠ [] ∧ name.head? ≠ some '/' ∧ ∀ c ∈ name, 32 < c.toNat ∧ c.toNat ≠ 127 ∧ c ≠ '"' ∧ c ≠ '\\'

instance (name : Text) : Decidable (IsGitName name) :=
  have : Decidable (∀ c ∈ name, 32 < c.toNat ∧ c.toNat ≠ 127 ∧ c ≠ '"' ∧ c ≠ '\\') :=
    List.decidableBAll _ name
  inferInstanceAs (Decidable (_ ∧ _))

/-- Removed and added lines; the heading is what follows the numbers of the hunk. The last line of a side may be
without a newline. -/
structure Hunk where
  oldStart : Nat
  newStart : Nat
  removed : List Text
  removedUnended : Bool
  added : List Text
  addedUnended : Bool
  heading : Text
  lines_free : ∀ line ∈ removed ++ added, '\n' ∉ line
  heading_free : '\n' ∉ heading
  counted : added ≠ [] → 1 ≤ newStart

inductive Change
  | created
  | modified
  | deleted
deriving DecidableEq

/-- A changed file; a mode may stand between the first line and the index. -/
structure ChangedFile where
  name : Text
  change : Change
  mode : List Text
  index : Text
  hunks : List Hunk
  isName : IsGitName name
  mode_plain : ∀ line ∈ mode, '\n' ∉ line ∧ line.head? ≠ some '+' ∧ line.head? ≠ some '@'
  index_free : '\n' ∉ index
  gone : change = .deleted → ∀ hunk ∈ hunks, hunk.added = []

/-- A count of one is left out. -/
def rangeText (start count : Nat) : Text :=
  if count = 1 then Nat.toDigits 10 start else Nat.toDigits 10 start ++ ',' :: Nat.toDigits 10 count

namespace Hunk

def header (hunk : Hunk) : Text :=
  '@' :: '@' :: ' ' :: '-' :: (rangeText hunk.oldStart hunk.removed.length ++
    ' ' :: '+' :: (rangeText hunk.newStart hunk.added.length ++ ' ' :: '@' :: '@' :: hunk.heading))

def unendedLines (unended : Bool) : List Text :=
  if unended then ['\\' :: " No newline at end of file".toList] else []

def lines (hunk : Hunk) : List Text :=
  hunk.header :: (hunk.removed.map (List.cons '-') ++ unendedLines hunk.removedUnended ++
    (hunk.added.map (List.cons '+') ++ unendedLines hunk.addedUnended))

def Has (hunk : Hunk) (line : Int32) : Prop :=
  hunk.newStart ≤ line.toInt ∧ line.toInt < hunk.newStart + hunk.added.length

/-- The numbers of the new side can be read. -/
def Fits (hunk : Hunk) : Prop := hunk.newStart < 2 ^ 31 ∧ hunk.added.length < 2 ^ 31

instance (hunk : Hunk) : Decidable hunk.Fits := inferInstanceAs (Decidable (_ ∧ _))

def range (hunk : Hunk) : GitDiffSourceFileRange := (.ofNat hunk.newStart, .ofNat hunk.added.length)

end Hunk

namespace ChangedFile

def headerLines (file : ChangedFile) : List Text :=
  ('d' :: ("iff --git a/".toList ++ file.name ++ " b/".toList ++ file.name)) :: file.mode ++
    ['i' :: ("ndex ".toList ++ file.index),
      '-' :: '-' :: '-' :: ' ' ::
        (if file.change = .created then "/dev/null".toList else "a/".toList ++ file.name),
      '+' :: '+' :: '+' :: ' ' ::
        (if file.change = .deleted then '/' :: "dev/null".toList else 'b' :: '/' :: file.name)]

def lines (file : ChangedFile) : List Text := file.headerLines ++ file.hunks.flatMap Hunk.lines

end ChangedFile

def diffText (files : List ChangedFile) : Text := (files.flatMap ChangedFile.lines).flatMap (· ++ ['\n'])

structure Filing where
  owner : ChangedFile
  fileName : Text
  hunk : Hunk

def afterAdded (root current : Text) (added : List Text) : Text :=
  added.foldl (fun current line => (lineRegex ('+' :: line)).elim current (absoluteFilePath root)) current

def afterHunks (root current : Text) (hunks : List Hunk) : Text :=
  hunks.foldl (fun current hunk => afterAdded root current hunk.added) current

def hunkFilings (root : Text) (owner : ChangedFile) (current : Text) : List Hunk → List Filing
  | [] => []
  | hunk :: hunks =>
    ⟨owner, current, hunk⟩ :: hunkFilings root owner (afterAdded root current hunk.added) hunks

/-- A deleted file has no name on the new side. -/
def afterHeader (root current : Text) (file : ChangedFile) : Text :=
  if file.change = .deleted then current else absoluteFilePath root file.name

def filingsFrom (root current : Text) : List ChangedFile → List Filing
  | [] => []
  | file :: files =>
    hunkFilings root file (afterHeader root current file) file.hunks ++
      filingsFrom root (afterHunks root (afterHeader root current file) file.hunks) files

def filings (root : Text) (files : List ChangedFile) : List Filing := filingsFrom root [] files

def record (gitDiffInfo : GitDiffInfo) (filing : Filing) : GitDiffInfo :=
  if filing.hunk.added = [] then gitDiffInfo else gitDiffInfo.push filing.fileName filing.hunk.range

section
variable {root current : Text} {info : GitDiffInfo}

theorem takeWhile_append_stop {α : Type} {p : α → Bool} {xs ys : List α} (all : ∀ x ∈ xs, p x = true)
    (stop : ∀ y ∈ ys.head?, p y = false) : (xs ++ ys).takeWhile p = xs ∧ (xs ++ ys).dropWhile p = ys := by
  rw [List.takeWhile_append_of_pos all, List.dropWhile_append_of_pos all]
  cases ys with
  | nil => simp
  | cons y ys => simp [stop y rfl]

theorem lineRegex_other {line : Text} (other : line.head? ≠ some '+') : lineRegex line = none := by
  unfold lineRegex
  split
  · exact absurd rfl other
  · rfl

theorem rangeRegex_other {line : Text} (other : line.head? ≠ some '@') : rangeRegex line = none := by
  unfold rangeRegex
  split
  · exact absurd rfl other
  · rfl

theorem parseLine_plain {line : Text} (notName : line.head? ≠ some '+') (notRange : line.head? ≠ some '@') :
    parseLine root (current, info) line = some (current, info) := by
  rw [parseLine, lineRegex_other notName, rangeRegex_other notRange]

theorem parseLine_added (line : Text) :
    parseLine root (current, info) ('+' :: line) =
      some ((lineRegex ('+' :: line)).elim current (absoluteFilePath root), info) := by
  rw [parseLine]
  cases lineRegex ('+' :: line) with
  | some name => rfl
  | none =>
    rw [rangeRegex_other (by simp)]
    rfl

theorem foldlM_plain {lines : List Text} (plain : ∀ line ∈ lines, line.head? ≠ some '+' ∧
      line.head? ≠ some '@') :
    lines.foldlM (parseLine root) (current, info) = some (current, info) := by
  induction lines with
  | nil => rfl
  | cons line lines ih =>
    obtain ⟨notName, notRange⟩ := plain line (by simp)
    rw [List.foldlM_cons, parseLine_plain notName notRange]
    exact ih fun l mem => plain l (List.mem_cons_of_mem _ mem)

theorem foldlM_added (added : List Text) :
    (added.map (List.cons '+')).foldlM (parseLine root) (current, info) =
      some (afterAdded root current added, info) := by
  induction added generalizing current with
  | nil => rfl
  | cons line added ih =>
    rw [List.map_cons, List.foldlM_cons, parseLine_added]
    exact ih

theorem rangeText_chars {start count : Nat} {c : Char} (mem : c ∈ rangeText start count) :
    isRangeChar c = true := by
  have digit {n : Nat} (isIn : c ∈ Nat.toDigits 10 n) : isRangeChar c = true := by
    rw [isRangeChar, isDigit_toDigits isIn, Bool.true_or]
  unfold rangeText at mem
  split at mem
  · exact digit mem
  · rcases List.mem_append.mp mem with mem | mem
    · exact digit mem
    · rcases List.mem_cons.mp mem with rfl | mem
      · rfl
      · exact digit mem

theorem rangeText_ne_nil (start count : Nat) : rangeText start count ≠ [] := by
  unfold rangeText
  split
  · exact Nat.toDigits_ne_nil
  · simp

theorem digits_append {n : Nat} {rest : Text} (stop : ∀ c ∈ rest.head?, c.isDigit = false) :
    (Nat.toDigits 10 n ++ rest).takeWhile Char.isDigit = Nat.toDigits 10 n ∧
      (Nat.toDigits 10 n ++ rest).dropWhile Char.isDigit = rest :=
  takeWhile_append_stop (fun _ mem => isDigit_toDigits mem) stop

theorem digits_isEmpty (n : Nat) : (Nat.toDigits 10 n).isEmpty = false := by
  simp [Nat.toDigits_ne_nil]

theorem rangeGroups_rangeText (start count : Nat) {rest : Text} (stop : rest.head? = some ' ') :
    rangeGroups (rangeText start count ++ rest) =
      some (Nat.toDigits 10 start, if count = 1 then [] else Nat.toDigits 10 count) := by
  have blank : ∀ c ∈ rest.head?, c.isDigit = false := by
    intro c mem
    rw [stop] at mem
    obtain rfl := Option.some.inj mem
    rfl
  unfold rangeText rangeGroups
  split
  · obtain ⟨digits, after⟩ := digits_append blank
    rw [digits, after, digits_isEmpty]
    obtain ⟨rest', rfl⟩ : ∃ rest', rest = ' ' :: rest' := by
      cases rest with
      | nil => cases stop
      | cons c rest' => exact ⟨rest', by rw [Option.some.inj stop]⟩
    rfl
  · rw [List.append_assoc, List.cons_append]
    obtain ⟨digits, after⟩ :=
      digits_append (by simp : ∀ c ∈ (',' :: (Nat.toDigits 10 count ++ rest)).head?, c.isDigit = false)
    rw [digits, after, digits_isEmpty]
    simp only [Bool.false_eq_true, if_false, (digits_append blank).1]

theorem rangeRegex_range (rest : Text) :
    rangeRegex ('@' :: '@' :: ' ' :: '-' :: rest) =
      if (rest.takeWhile isRangeChar).isEmpty then none
      else
        match rest.dropWhile isRangeChar with
        | ' ' :: '+' :: newRange => rangeGroups newRange
        | _ => none := rfl

theorem rangeRegex_header (hunk : Hunk) :
    rangeRegex hunk.header = some (Nat.toDigits 10 hunk.newStart,
      if hunk.added.length = 1 then [] else Nat.toDigits 10 hunk.added.length) := by
  have old := takeWhile_append_stop
    (fun _ mem => rangeText_chars mem : ∀ c ∈ rangeText hunk.oldStart hunk.removed.length,
      isRangeChar c = true)
    (by simp [isRangeChar] : ∀ c ∈ (' ' :: '+' :: (rangeText hunk.newStart hunk.added.length ++
      ' ' :: '@' :: '@' :: hunk.heading)).head?, isRangeChar c = false)
  rw [Hunk.header, rangeRegex_range, old.1, old.2, List.isEmpty_eq_false_iff.mpr (rangeText_ne_nil _ _)]
  exact rangeGroups_rangeText _ _ rfl

theorem narrow_natCast {n : Nat} : narrow (n : Int) = if n < 2 ^ 31 then some (.ofNat n) else none := by
  unfold narrow
  split
  · rename_i both
    rw [if_pos (by omega)]
    rfl
  · rename_i outside
    rw [if_neg (by omega)]

theorem toInt_ofNat {n : Nat} (small : n < 2 ^ 31) : (Int32.ofNat n).toInt = n := by
  exact Int32.toInt_ofNat_of_lt small

theorem parseLine_header (hunk : Hunk) :
    parseLine root (current, info) hunk.header =
      if hunk.Fits then some (current, if hunk.added = [] then info else info.push current hunk.range)
        else none := by
  have notName : hunk.header.head? ≠ some '+' := by simp [Hunk.header]
  have count : (if (if hunk.added.length = 1 then [] else Nat.toDigits 10 hunk.added.length).isEmpty = true
      then some 1 else stoi (if hunk.added.length = 1 then [] else Nat.toDigits 10 hunk.added.length)) =
        narrow (hunk.added.length : Int) := by
    by_cases one : hunk.added.length = 1
    · rw [if_pos one, one]
      rfl
    · rw [if_neg one, digits_isEmpty, if_neg Bool.false_ne_true, stoi_toDigits]
  rw [parseLine, lineRegex_other notName, rangeRegex_header]
  dsimp only
  rw [count, stoi_toDigits, narrow_natCast, narrow_natCast]
  by_cases start : hunk.newStart < 2 ^ 31
  · by_cases length : hunk.added.length < 2 ^ 31
    · have positive : Int32.ofNat hunk.added.length > 0 ↔ hunk.added ≠ [] := by
        rw [gt_iff_lt, Int32.lt_iff_toInt_lt, toInt_ofNat length, ← List.length_pos_iff]
        exact Int.natCast_pos
      have fits : hunk.Fits := ⟨start, length⟩
      rw [if_pos start, if_pos length, if_pos fits]
      by_cases empty : hunk.added = []
      · simp [empty]
      · simp [positive.mpr empty, empty, Hunk.range]
    · have unfit : ¬ hunk.Fits := fun fits => length fits.2
      rw [if_pos start, if_neg length, if_neg unfit]
      rfl
  · have unfit : ¬ hunk.Fits := fun fits => start fits.1
    rw [if_neg start, if_neg unfit]
    rfl

theorem unendedLines_plain {unended : Bool} {line : Text} (mem : line ∈ Hunk.unendedLines unended) :
    line.head? ≠ some '+' ∧ line.head? ≠ some '@' := by
  unfold Hunk.unendedLines at mem
  split at mem
  · obtain rfl := List.mem_singleton.mp mem
    exact ⟨by simp, by simp⟩
  · cases mem

theorem foldlM_hunk (owner : ChangedFile) (hunk : Hunk) :
    hunk.lines.foldlM (parseLine root) (current, info) =
      if hunk.Fits then some (afterAdded root current hunk.added,
        record info ⟨owner, current, hunk⟩) else none := by
  rw [Hunk.lines, List.foldlM_cons, parseLine_header]
  by_cases fits : hunk.Fits
  · have plain : ∀ line ∈ hunk.removed.map (List.cons '-') ++ Hunk.unendedLines hunk.removedUnended,
        line.head? ≠ some '+' ∧ line.head? ≠ some '@' := by
      intro line mem
      rcases List.mem_append.mp mem with mem | mem
      · obtain ⟨text, _, rfl⟩ := List.mem_map.mp mem
        exact ⟨by simp, by simp⟩
      · exact unendedLines_plain mem
    rw [if_pos fits, if_pos fits, Option.bind_eq_bind, Option.bind_some, List.foldlM_append,
      foldlM_plain plain,
      Option.bind_eq_bind, Option.bind_some, List.foldlM_append, foldlM_added, Option.bind_eq_bind,
      Option.bind_some, foldlM_plain fun _ mem => unendedLines_plain mem]
    rfl
  · rw [if_neg fits, if_neg fits]
    rfl

theorem foldlM_hunks (owner : ChangedFile) (hunks : List Hunk) :
    (hunks.flatMap Hunk.lines).foldlM (parseLine root) (current, info) =
      if ∀ hunk ∈ hunks, hunk.Fits then
        some (afterHunks root current hunks, (hunkFilings root owner current hunks).foldl record info)
      else none := by
  induction hunks generalizing current info with
  | nil => rfl
  | cons hunk hunks ih =>
    rw [List.flatMap_cons, List.foldlM_append, foldlM_hunk owner]
    by_cases fits : hunk.Fits
    · rw [if_pos fits, Option.bind_eq_bind, Option.bind_some, ih]
      simp only [List.forall_mem_cons, fits, true_and]
      rfl
    · rw [if_neg fits, if_neg fun all => fits (all hunk (by simp))]
      rfl

theorem name_visible {name : Text} (isName : IsGitName name) {c : Char} (mem : c ∈ name) :
    c ≠ '\n' ∧ c ≠ '\r' := by
  have visible := (isName.2.2 c mem).1
  constructor <;> rintro rfl <;> exact absurd visible (by decide)

theorem lineRegex_prefixed (name : Text) :
    lineRegex ('+' :: '+' :: '+' :: ' ' :: 'b' :: '/' :: name) =
      some (name.takeWhile fun c => c != '\n' && c != '\r') :=
  rfl

theorem lineRegex_name {name : Text} (isName : IsGitName name) :
    lineRegex ('+' :: '+' :: '+' :: ' ' :: 'b' :: '/' :: name) = some name := by
  have whole : name.takeWhile (fun c => c != '\n' && c != '\r') = name := by
    apply List.takeWhile_eq_self_iff.mpr
    intro c mem
    simp [name_visible isName mem]
  rw [lineRegex_prefixed, whole]

theorem foldlM_cons_plain {c : Char} {line : Text} {lines : List Text} (notName : c ≠ '+')
    (notRange : c ≠ '@') :
    ((c :: line) :: lines).foldlM (parseLine root) (current, info) =
      lines.foldlM (parseLine root) (current, info) := by
  have head {d : Char} (other : c ≠ d) : (c :: line).head? ≠ some d :=
    fun same => other (Option.some.inj same)
  rw [List.foldlM_cons, parseLine_plain (head notName) (head notRange)]
  rfl

theorem foldlM_headerLines (file : ChangedFile) :
    file.headerLines.foldlM (parseLine root) (current, info) =
      some (afterHeader root current file, info) := by
  have mode : ∀ line ∈ file.mode, line.head? ≠ some '+' ∧ line.head? ≠ some '@' :=
    fun line mem => (file.mode_plain line mem).2
  rw [ChangedFile.headerLines, List.foldlM_append, foldlM_cons_plain (by decide) (by decide),
    foldlM_plain mode, Option.bind_eq_bind, Option.bind_some, foldlM_cons_plain (by decide) (by decide),
    foldlM_cons_plain (by decide) (by decide), List.foldlM_cons, parseLine_added, afterHeader]
  split
  · rfl
  · rw [lineRegex_name file.isName]
    rfl

/-- The files one after the other; the name of one is still current at the next. -/
theorem foldlM_files (files : List ChangedFile) :
    ((files.flatMap ChangedFile.lines).foldlM (parseLine root) (current, info)).map Prod.snd =
      if ∀ file ∈ files, ∀ hunk ∈ file.hunks, hunk.Fits then some
        ((filingsFrom root current files).foldl record info)
      else none := by
  induction files generalizing current info with
  | nil => rfl
  | cons file files ih =>
    rw [List.flatMap_cons, List.foldlM_append, ChangedFile.lines, List.foldlM_append, foldlM_headerLines,
      Option.bind_eq_bind, Option.bind_some, foldlM_hunks file]
    by_cases fits : ∀ hunk ∈ file.hunks, hunk.Fits
    · have rest : (∀ other ∈ file :: files, ∀ hunk ∈ other.hunks, hunk.Fits) ↔
          ∀ other ∈ files, ∀ hunk ∈ other.hunks, hunk.Fits := by
        rw [List.forall_mem_cons, and_iff_right fits]
      rw [if_pos fits, Option.bind_some, ih]
      simp only [rest, filingsFrom, List.foldl_append]
    · rw [if_neg fits, if_neg fun all => fits (all file (by simp))]
      rfl

theorem rangeText_free {start count : Nat} : '\n' ∉ rangeText start count := by
  intro mem
  exact absurd (rangeText_chars mem) (by decide)

theorem header_free (hunk : Hunk) : '\n' ∉ hunk.header := by
  simp [Hunk.header, rangeText_free, hunk.heading_free]

theorem unendedLines_free {unended : Bool} : ∀ line ∈ Hunk.unendedLines unended, '\n' ∉ line := by
  cases unended <;> decide

theorem hunk_lines_free (hunk : Hunk) : ∀ line ∈ hunk.lines, '\n' ∉ line := by
  have prefixed {c : Char} (other : c ≠ '\n') {lines : List Text} (free : ∀ line ∈ lines, '\n' ∉ line) :
      ∀ line ∈ lines.map (List.cons c), '\n' ∉ line := by
    intro line mem
    obtain ⟨text, isIn, rfl⟩ := List.mem_map.mp mem
    simp [Ne.symm other, free text isIn]
  intro line mem
  simp only [Hunk.lines, List.mem_cons, List.mem_append] at mem
  rcases mem with rfl | (mem | mem) | mem | mem
  · exact header_free hunk
  · exact prefixed (by decide) (fun l isIn => hunk.lines_free l (List.mem_append_left _ isIn)) line mem
  · exact unendedLines_free line mem
  · exact prefixed (by decide) (fun l isIn => hunk.lines_free l (List.mem_append_right _ isIn)) line mem
  · exact unendedLines_free line mem

theorem append_free {xs ys : Text} (left : '\n' ∉ xs) (right : '\n' ∉ ys) : '\n' ∉ xs ++ ys := by
  intro mem
  rcases List.mem_append.mp mem with mem | mem
  · exact left mem
  · exact right mem

theorem cons_free {c : Char} {xs : Text} (head : c ≠ '\n') (tail : '\n' ∉ xs) : '\n' ∉ c :: xs := by
  intro mem
  rcases List.mem_cons.mp mem with same | mem
  · exact head same.symm
  · exact tail mem

theorem headerLines_free (file : ChangedFile) : ∀ line ∈ file.headerLines, '\n' ∉ line := by
  have name : '\n' ∉ file.name := fun mem => (name_visible file.isName mem).1 rfl
  intro line mem
  rcases List.mem_append.mp mem with mem | mem
  · rcases List.mem_cons.mp mem with rfl | mem
    · exact cons_free (by decide) (append_free (append_free (append_free (by decide) name) (by decide)) name)
    · exact (file.mode_plain line mem).1
  · rcases List.mem_cons.mp mem with rfl | mem
    · exact cons_free (by decide) (append_free (by decide) file.index_free)
    rcases List.mem_cons.mp mem with rfl | mem
    · refine cons_free (by decide) (cons_free (by decide) (cons_free (by decide) (cons_free (by decide) ?_)))
      split
      · decide
      · exact append_free (by decide) name
    · obtain rfl := List.mem_singleton.mp mem
      refine cons_free (by decide) (cons_free (by decide) (cons_free (by decide) (cons_free (by decide) ?_)))
      split
      · decide
      · exact cons_free (by decide) (cons_free (by decide) name)

theorem file_lines_free (file : ChangedFile) : ∀ line ∈ file.lines, '\n' ∉ line := by
  intro line mem
  rcases List.mem_append.mp mem with mem | mem
  · exact headerLines_free file line mem
  · obtain ⟨hunk, _, mem⟩ := List.mem_flatMap.mp mem
    exact hunk_lines_free hunk line mem

theorem parse_eq (root : Text) (files : List ChangedFile) :
    parseDiffContent root (diffText files) =
      if ∀ file ∈ files, ∀ hunk ∈ file.hunks, hunk.Fits then some
        ((filings root files).foldl record ∅) else none := by
  have free : ∀ line ∈ files.flatMap ChangedFile.lines, '\n' ∉ line := by
    intro line mem
    obtain ⟨file, _, mem⟩ := List.mem_flatMap.mp mem
    exact file_lines_free file line mem
  rw [parseDiffContent]
  split
  · rename_i empty
    cases files with
    | nil => simp [filings, filingsFrom]
    | cons file files => exact absurd empty Bool.false_ne_true
  · rw [diffText, getlines_ended free, foldlM_files]
    rfl

end

theorem mem_hunkFilings {root current : Text} {owner : ChangedFile} {hunks : List Hunk} {filing : Filing}
    (mem : filing ∈ hunkFilings root owner current hunks) : filing.owner = owner ∧ filing.hunk ∈ hunks := by
  induction hunks generalizing current with
  | nil => cases mem
  | cons hunk hunks ih =>
    rcases List.mem_cons.mp mem with rfl | mem
    · exact ⟨rfl, by simp⟩
    · exact ⟨(ih mem).1, List.mem_cons_of_mem _ (ih mem).2⟩

theorem hunk_filed {root current : Text} {owner : ChangedFile} {hunks : List Hunk} {hunk : Hunk}
    (mem : hunk ∈ hunks) :
    ∃ fileName, ⟨owner, fileName, hunk⟩ ∈ hunkFilings root owner current hunks := by
  induction hunks generalizing current with
  | nil => cases mem
  | cons first hunks ih =>
    rcases List.mem_cons.mp mem with rfl | mem
    · exact ⟨current, List.mem_cons_self ..⟩
    · obtain ⟨fileName, filed⟩ := ih mem
      exact ⟨fileName, List.mem_cons_of_mem _ filed⟩

theorem mem_filingsFrom {root current : Text} {files : List ChangedFile} {filing : Filing}
    (mem : filing ∈ filingsFrom root current files) :
      filing.owner ∈ files ∧ filing.hunk ∈ filing.owner.hunks := by
  induction files generalizing current with
  | nil => cases mem
  | cons file files ih =>
    rcases List.mem_append.mp mem with mem | mem
    · obtain ⟨same, isHunk⟩ := mem_hunkFilings mem
      rw [same]
      exact ⟨by simp, isHunk⟩
    · exact ⟨List.mem_cons_of_mem _ (ih mem).1, (ih mem).2⟩

theorem filed {root current : Text} {files : List ChangedFile} {file : ChangedFile} {hunk : Hunk}
    (isFile : file ∈ files)
    (isHunk : hunk ∈ file.hunks) : ∃ fileName, ⟨file, fileName, hunk⟩ ∈ filingsFrom root current files := by
  induction files generalizing current with
  | nil => cases isFile
  | cons first files ih =>
    rcases List.mem_cons.mp isFile with rfl | isFile
    · obtain ⟨fileName, mem⟩ := hunk_filed isHunk
      exact ⟨fileName, List.mem_append_left _ mem⟩
    · obtain ⟨fileName, mem⟩ := ih isFile
      exact ⟨fileName, List.mem_append_right _ mem⟩

def rangesOf (path : Text) (filings : List Filing) : List GitDiffSourceFileRange :=
  (filings.filter fun filing => filing.hunk.added ≠ [] ∧ filing.fileName = path).map (·.hunk.range)

theorem lookup_record (info : GitDiffInfo) (filings : List Filing) (path : Text) :
    ((filings.foldl record info).lookup path).getD [] = (info.lookup path).getD [] ++
      rangesOf path filings := by
  induction filings generalizing info with
  | nil => exact (List.append_nil _).symm
  | cons filing filings ih =>
    rw [List.foldl_cons, ih, record, rangesOf, rangesOf, List.filter_cons]
    by_cases empty : filing.hunk.added = []
    · rw [if_pos empty, if_neg (by simp [empty])]
    · rw [if_neg empty, lookup_push, List.append_assoc]
      by_cases same : filing.fileName = path
      · rw [if_pos same, if_pos (by simp [empty, same])]
        rfl
      · rw [if_neg same, if_neg (by simp [same])]
        rfl

end Mull.Filters
