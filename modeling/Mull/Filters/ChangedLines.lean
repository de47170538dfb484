import Mull.Filters.ZeroContextDiff

/-! The filter keeps the changed lines of a zero-context diff where the hunks are read under their own file. -/

namespace Mull.Filters
open Base LLVM SourceLocation

/-- The line is on the new side of a hunk of the file. -/
def Changed (files : List ChangedFile) (name : Text) (line : Int32) : Prop :=
  ∃ file ∈ files, file.name = name ∧ ∃ hunk ∈ file.hunks, hunk.Has line

def KeepsChangedLines (root : Text) (files : List ChangedFile) : Prop :=
  ∃ gitDiffInfo, parseDiffContent root (diffText files) = some gitDiffInfo ∧
    ∀ instruction name, IsGitName name → (locationFromInstruction instruction).filePath =
      root ++ '/' :: name →
      ∃ skip, shouldSkip gitDiffInfo instruction = some skip ∧
        (skip = false ↔ Changed files name (locationFromInstruction instruction).line)

/-- Numbers fit in an `int`, and a hunk that comes after an added line that reads as another name does no harm:
what it changes there is changed anyway, and what it changes in its own file is found there anyway. -/
structure ReadsBack (root : Text) (files : List ChangedFile) : Prop where
  fits : ∀ file ∈ files, ∀ hunk ∈ file.hunks, hunk.Fits
  within : ∀ filing ∈ filings root files, filing.hunk.added ≠ [] → ∀ name, IsGitName name →
    filing.fileName = root ++ '/' :: name → filing.hunk.newStart + filing.hunk.added.length < 2 ^ 31
  stray : ∀ filing ∈ filings root files, filing.fileName ≠ root ++ '/' :: filing.owner.name →
    ∀ line, filing.hunk.Has line →
      (∀ name, IsGitName name → filing.fileName = root ++ '/' :: name → Changed files name line) ∧
      ∃ other ∈ filings root files, other.fileName = root ++ '/' :: filing.owner.name ∧ other.hunk.Has line

instance (hunk : Hunk) (line : Int32) : Decidable (hunk.Has line) := inferInstanceAs (Decidable (_ ∧ _))

section
variable {root path name : Text} {files : List ChangedFile} {hunk : Hunk} {line : Int32}

theorem absoluteFilePath_name (isName : IsGitName name) :
    absoluteFilePath root name = root ++ '/' :: name := by
  obtain ⟨nonempty, relative, _⟩ := isName
  rw [absoluteFilePath, if_pos]
  simp [nonempty, relative]

theorem Hunk.Has.added (has : hunk.Has line) : hunk.added ≠ [] := by
  intro empty
  obtain ⟨lower, upper⟩ := has
  rw [empty] at upper
  simp at upper
  omega

/-- One step of the loop: the end of the range is computed first. -/
theorem skipsLine_hunk (fits : hunk.Fits) (nonempty : hunk.added ≠ [])
    (ranges : List GitDiffSourceFileRange) :
    skipsLine line (hunk.range :: ranges) =
      if hunk.newStart + hunk.added.length < 2 ^ 31 then
        if hunk.Has line then some false else skipsLine line ranges
      else none := by
  have positive : 0 < hunk.added.length := List.length_pos_iff.mpr nonempty
  have sum : hunk.range.1.toInt + hunk.range.2.toInt = ((hunk.newStart + hunk.added.length : Nat) : Int) := by
    rw [Hunk.range, toInt_ofNat fits.1, toInt_ofNat fits.2]
    rfl
  rw [skipsLine, sum, narrow_natCast]
  by_cases small : hunk.newStart + hunk.added.length < 2 ^ 31
  · have last : ((hunk.newStart + hunk.added.length : Nat) : Int) - 1 =
        ((hunk.newStart + hunk.added.length - 1 : Nat) : Int) := by
      omega
    have has : hunk.range.1 ≤ line ∧ line ≤ Int32.ofNat (hunk.newStart + hunk.added.length - 1) ↔
      hunk.Has line := by
      rw [Int32.le_iff_toInt_le, Int32.le_iff_toInt_le, toInt_ofNat (by omega), Hunk.range,
        toInt_ofNat fits.1, Hunk.Has]
      omega
    rw [if_pos small, if_pos small, Option.bind_eq_bind, Option.bind_some, toInt_ofNat small,
      last, narrow_natCast, if_pos (by omega), Option.bind_some]
    exact if_congr has rfl rfl
  · rw [if_neg small, if_neg small]
    rfl

theorem mem_filings (all : ∀ file ∈ files, ∀ hunk ∈ file.hunks, hunk.Fits) {filing : Filing}
    (mem : filing ∈ filings root files) : filing.hunk.Fits :=
  all filing.owner (mem_filingsFrom mem).1 filing.hunk (mem_filingsFrom mem).2

theorem rangesOf_cons {filing : Filing} {filings : List Filing}
    (counts : filing.hunk.added ≠ [] ∧ filing.fileName = path) :
    rangesOf path (filing :: filings) = filing.hunk.range :: rangesOf path filings := by
  simp [rangesOf, counts.1, counts.2]

theorem rangesOf_cons_other {filing : Filing} {filings : List Filing}
    (counts : ¬ (filing.hunk.added ≠ [] ∧ filing.fileName = path)) :
    rangesOf path (filing :: filings) = rangesOf path filings := by
  rw [rangesOf, List.filter_cons, if_neg (by simpa using counts)]
  rfl

theorem skipsLine_ranges {filings : List Filing} (fits : ∀ filing ∈ filings, filing.hunk.Fits)
    (within : ∀ filing ∈ filings, filing.hunk.added ≠ [] → filing.fileName = path →
      filing.hunk.newStart + filing.hunk.added.length < 2 ^ 31) :
    ∃ skip, skipsLine line (rangesOf path filings) = some skip ∧
      (skip = false ↔ ∃ filing ∈ filings, filing.fileName = path ∧ filing.hunk.Has line) := by
  induction filings with
  | nil => exact ⟨true, rfl, by simp⟩
  | cons filing filings ih =>
    obtain ⟨skip, found, spec⟩ := ih (fun other mem => fits other (List.mem_cons_of_mem _ mem))
      (fun other mem => within other (List.mem_cons_of_mem _ mem))
    by_cases counts : filing.hunk.added ≠ [] ∧ filing.fileName = path
    · rw [rangesOf_cons counts, skipsLine_hunk (fits filing (by simp)) counts.1,
        if_pos (within filing (by simp) counts.1 counts.2)]
      by_cases has : filing.hunk.Has line
      · rw [if_pos has]
        exact ⟨false, rfl, fun _ => ⟨filing, by simp, counts.2, has⟩, fun _ => rfl⟩
      · rw [if_neg has]
        refine ⟨skip, found, spec.trans ?_⟩
        simp [has]
    · have other : ¬ (filing.fileName = path ∧ filing.hunk.Has line) :=
        fun both => counts ⟨both.2.added, both.1⟩
      rw [rangesOf_cons_other counts]
      refine ⟨skip, found, spec.trans ?_⟩
      simp [other]

/-- The largest line is beyond every range whose end can be computed, so that the loop comes to the first that is
not. -/
theorem skipsLine_overflow {filings : List Filing} (fits : ∀ filing ∈ filings, filing.hunk.Fits)
    {filing : Filing}
    (mem : filing ∈ filings) (nonempty : filing.hunk.added ≠ []) (under : filing.fileName = path)
    (large : ¬ filing.hunk.newStart + filing.hunk.added.length < 2 ^ 31) :
    skipsLine Int32.maxValue (rangesOf path filings) = none := by
  have beyond {hunk : Hunk} (small : hunk.newStart + hunk.added.length < 2 ^ 31) :
    ¬ hunk.Has Int32.maxValue := by
    rintro ⟨_, upper⟩
    have value : Int32.maxValue.toInt = 2 ^ 31 - 1 := rfl
    omega
  induction filings with
  | nil => cases mem
  | cons first filings ih =>
    by_cases counts : first.hunk.added ≠ [] ∧ first.fileName = path
    · rw [rangesOf_cons counts, skipsLine_hunk (fits first (by simp)) counts.1]
      split
      · rename_i small
        rw [if_neg (beyond small)]
        rcases List.mem_cons.mp mem with rfl | mem
        · exact absurd small large
        · exact ih (fun other isIn => fits other (List.mem_cons_of_mem _ isIn)) mem
      · rfl
    · rw [rangesOf_cons_other counts]
      rcases List.mem_cons.mp mem with rfl | mem
      · exact absurd ⟨nonempty, under⟩ counts
      · exact ih (fun other isIn => fits other (List.mem_cons_of_mem _ isIn)) mem

theorem shouldSkip_diff (instruction : Inst) (inFile :
    (locationFromInstruction instruction).filePath = path) :
    shouldSkip ((filings root files).foldl record ∅) instruction =
      if (locationFromInstruction instruction).isNull then some true
      else skipsLine (locationFromInstruction instruction).line (rangesOf path (filings root files)) := by
  rw [shouldSkip_eq, inFile, lookup_record]
  rfl

theorem not_changed_null {location : SourceLocation} (null : location.isNull = true) :
    ¬ Changed files name location.line := by
  rintro ⟨file, _, _, hunk, _, has⟩
  have first := hunk.counted has.added
  have lower := has.1
  rw [(isNull_iff.mp null).1] at lower
  have zero : (0 : Int32).toInt = 0 := rfl
  omega

def instructionAt (root name : Text) (line : Int32) : Inst :=
  .terminator (.ret none) (some ⟨root, name, line, 1, none⟩)

theorem instructionAt_path (isName : IsGitName name) :
    (locationFromInstruction (instructionAt root name line)).filePath = root ++ '/' :: name :=
  absoluteFilePath_name isName

theorem instructionAt_isNull : (locationFromInstruction (instructionAt root name line)).isNull = false := by
  rw [← Bool.not_eq_true, isNull_iff]
  rintro ⟨_, column⟩
  exact absurd column (by decide : (1 : Int32) ≠ 0)

theorem shouldSkip_instructionAt (isName : IsGitName name) :
    shouldSkip ((filings root files).foldl record ∅) (instructionAt root name line) =
      skipsLine line (rangesOf (root ++ '/' :: name) (filings root files)) := by
  rw [shouldSkip_diff _ (instructionAt_path isName), instructionAt_isNull]
  rfl

theorem prefixed_inj {other : Text} (same : root ++ '/' :: name = root ++ '/' :: other) : name = other :=
  List.cons_inj_right '/' |>.mp (List.append_cancel_left same)

theorem ReadsBack.filed_iff_changed (readsBack : ReadsBack root files) (isName : IsGitName name) :
    (∃ filing ∈ filings root files, filing.fileName = root ++ '/' :: name ∧ filing.hunk.Has line) ↔
      Changed files name line := by
  constructor
  · rintro ⟨filing, mem, under, has⟩
    by_cases own : filing.fileName = root ++ '/' :: filing.owner.name
    · have same : filing.owner.name = name := prefixed_inj (own.symm.trans under)
      obtain ⟨isFile, isHunk⟩ := mem_filingsFrom mem
      exact ⟨filing.owner, isFile, same, filing.hunk, isHunk, has⟩
    · exact (readsBack.stray filing mem own line has).1 name isName under
  · rintro ⟨file, isFile, rfl, hunk, isHunk, has⟩
    obtain ⟨fileName, mem⟩ :=
      (filed isFile isHunk : ∃ fileName, ⟨file, fileName, hunk⟩ ∈ filingsFrom root [] files)
    by_cases own : fileName = root ++ '/' :: file.name
    · exact ⟨_, mem, own, has⟩
    · exact (readsBack.stray _ mem own line has).2

end

/-- The filter keeps exactly the changed lines where every hunk is read back, and only there. -/
theorem keepsChangedLines_iff (root : Text) (files : List ChangedFile) :
    KeepsChangedLines root files ↔ ReadsBack root files := by
  constructor
  · rintro ⟨gitDiffInfo, parsed, kept⟩
    rw [parse_eq] at parsed
    split at parsed
    · rename_i fits
      obtain rfl := Option.some.inj parsed
      have filingsFit : ∀ filing ∈ filings root files, filing.hunk.Fits :=
        fun filing mem => mem_filings fits mem
      have within : ∀ filing ∈ filings root files, filing.hunk.added ≠ [] → ∀ name, IsGitName name →
          filing.fileName = root ++ '/' :: name → filing.hunk.newStart +
            filing.hunk.added.length < 2 ^ 31 := by
        intro filing mem nonempty name isName under
        by_contra large
        obtain ⟨skip, answered, _⟩ := kept (instructionAt root name Int32.maxValue) name isName
          (instructionAt_path isName)
        rw [shouldSkip_instructionAt isName, skipsLine_overflow filingsFit mem nonempty under
          large] at answered
        cases answered
      have filed_iff {name : Text} (isName : IsGitName name) (line : Int32) :
          (∃ filing ∈ filings root files, filing.fileName = root ++ '/' :: name ∧ filing.hunk.Has line) ↔
            Changed files name line := by
        obtain ⟨skip, answered, spec⟩ := kept (instructionAt root name line) name isName
          (instructionAt_path isName)
        obtain ⟨skip', found, spec'⟩ := skipsLine_ranges filingsFit
          (fun filing mem nonempty under => within filing mem nonempty name isName under)
        rw [shouldSkip_instructionAt isName, found] at answered
        obtain rfl := Option.some.inj answered
        exact spec'.symm.trans spec
      refine ⟨fits, within, fun filing mem _ line has => ⟨fun name isName under => ?_, ?_⟩⟩
      · exact (filed_iff isName line).mp ⟨filing, mem, under, has⟩
      · obtain ⟨isFile, isHunk⟩ := mem_filingsFrom mem
        exact (filed_iff filing.owner.isName line).mpr ⟨filing.owner, isFile, rfl, filing.hunk, isHunk, has⟩
    · cases parsed
  · intro readsBack
    refine ⟨(filings root files).foldl record ∅, by rw [parse_eq, if_pos readsBack.fits], ?_⟩
    intro instruction name isName inFile
    rw [shouldSkip_diff instruction inFile]
    split
    · rename_i null
      exact ⟨true, rfl, fun absurd => (Bool.noConfusion absurd),
        fun changed => absurd changed (not_changed_null null)⟩
    · obtain ⟨skip, found, spec⟩ := skipsLine_ranges
        (fun filing mem => mem_filings readsBack.fits mem)
        (fun filing mem nonempty under => readsBack.within filing mem nonempty name isName under)
      exact ⟨skip, found, spec.trans (readsBack.filed_iff_changed isName)⟩

/-- A line that reads like the header of another file. -/
def bulletHunk : Hunk where
  oldStart := 0
  newStart := 1
  removed := []
  removedUnended := false
  added := ["++ x/y".toList]
  addedUnended := false
  heading := []
  lines_free := by decide
  heading_free := by decide
  counted _ := by decide

def laterHunk : Hunk where
  oldStart := 5
  newStart := 7
  removed := []
  removedUnended := false
  added := ["int z;".toList]
  addedUnended := false
  heading := []
  lines_free := by decide
  heading_free := by decide
  counted _ := by decide

def changedFile : ChangedFile where
  name := "a.c".toList
  change := .modified
  mode := []
  index := " 1..2".toList
  hunks := [bulletHunk, laterHunk]
  isName := by decide
  mode_plain := by decide
  index_free := by decide
  gone := by decide

/-- The hunk after such a line is not found in its own file. -/
theorem not_keepsChangedLines_bullet : ¬ KeepsChangedLines "/r".toList [changedFile] := by
  rintro ⟨info, parsed, kept⟩
  obtain ⟨skip, answered, spec⟩ :=
    kept (.terminator (.ret none) (some ⟨"/r".toList, "a.c".toList, 7, 1, none⟩))
    "a.c".toList (by decide) rfl
  have skips : (parseDiffContent "/r".toList (diffText [changedFile])).bind
    (shouldSkip · (.terminator (.ret none)
      (some ⟨"/r".toList, "a.c".toList, 7, 1, none⟩))) = some true := by
    decide +kernel
  rw [parsed, Option.bind_some, answered] at skips
  have changed : Changed [changedFile] "a.c".toList 7 :=
    ⟨changedFile, by simp, rfl, laterHunk, by simp [changedFile], by decide, by decide⟩
  rw [spec.mpr changed] at skips
  cases skips

end Mull.Filters
