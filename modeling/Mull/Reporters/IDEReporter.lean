import Mull.Reporters.Caret
import Mull.Reporters.Result
import Mull.Reporters.Score

/-! `IDEReporter`: mutants printed in groups, like warnings of a compiler, and the score. -/

namespace Mull.Reporters
open Base Toolchain Runner

namespace IDEReporter
open SourceManager

/-- What is kept between the mutants: the factory and the opened files. -/
structure Kept where
  factory : MutatorsFactory
  manager : SourceManager

structure Groups where
  killed : List Nat := []
  survived : List Nat := []
  notCovered : List Nat := []

def pushResult (groups : Groups) (mutationResult : MutationResult) : Groups :=
  if mutantSurvived mutationResult.result.status then
    { groups with survived := groups.survived ++ [mutationResult.mutant] }
  else if mutantNotCovered mutationResult.result.status then
    { groups with notCovered := groups.notCovered ++ [mutationResult.mutant] }
  else { groups with killed := groups.killed ++ [mutationResult.mutant] }

def warning (mutant : Mutant) (mutator : Mutator) (status : Text) : Text :=
  mutant.sourceLocation.filePath ++ ':' :: toText mutant.sourceLocation.line ++ ':' ::
    toText mutant.sourceLocation.column ++ ": warning: ".toList ++ status ++ ": ".toList ++
      mutator.getDiagnostics ++
      " [".toList ++ mutant.mutatorIdentifier ++ "]\n".toList

section
variable (files : Files) (memory : Nat → SourceCodeReader.Memory)

/-- A zero ends what `fprintf` prints. -/
def printMutant (memory : SourceCodeReader.Memory) (mutant : Mutant) (status : Text) (kept : Kept) :
    Except Abort (Output × Kept) := do
  if mutant.sourceLocation.isNull then throw (.assertion "!sourceLocation.isNull()")
  let (mutator, factory) := kept.factory.getMutator mutant.mutatorIdentifier
  let some mutator := mutator | throw .nullMutator
  let (excerpt, manager) ← (SourceCodeReader.getSourceLineWithCaret files memory mutant.sourceLocation
    kept.manager).mapError .source
  pure (.stdout ((warning mutant mutator status ++ excerpt).takeWhile (· ≠ '\x00')), ⟨factory, manager⟩)

/-- The mutants one after the other; `memory` is what each of them finds when it is printed. -/
def printEach (all : List Mutant) (status : Text) : List Nat → Kept → Except Abort (List Output × Kept)
  | [], kept => pure ([], kept)
  | i :: rest, kept => do
    let some mutant := all[i]? | throw .danglingMutant
    let (first, kept) ← printMutant files (memory i) mutant status kept
    let (later, kept) ← printEach all status rest kept
    pure (first :: later, kept)

def heading (status : Text) (size totalSize : Nat) : Text :=
  status ++ " mutants (".toList ++ sizeText size ++ '/' :: sizeText totalSize ++ "):".toList

def printMutants (all : List Mutant) (mutants : List Nat) (status : Text) (kept : Kept) :
    Except Abort (List Output × Kept) :=
  if mutants.isEmpty then pure ([], kept)
  else do
    let (printed, kept) ← printEach files memory all status mutants kept
    pure (.info (heading status mutants.length all.length) :: printed, kept)

/-- Killed mutants are printed where this is asked for. -/
def printKilled (showKilled : Bool) (all : List Mutant) (mutants : List Nat) (kept : Kept) :
    Except Abort (List Output × Kept) :=
  if showKilled then printMutants files memory all mutants "Killed".toList kept else pure ([], kept)

def scoreLine (killed total : Nat) :
    Text := "Mutation score: ".toList ++ sizeText (score killed total) ++ ['%']

def reportResults (showKilled : Bool) (result : Result) (manager : SourceManager) :
    Except Abort (List Output × SourceManager) := do
  if result.mutants.isEmpty then return ([.info noMutants], manager)
  let groups := result.mutationResults.foldl pushResult {}
  if groups.killed.length + groups.survived.length + groups.notCovered.length ≠ result.mutationResults.length then
    throw (.assertion
      "killedMutants.size() + survivedMutants.size() + notCoveredMutants.size() == result.getMutationResults().size()")
  let kept : Kept := ⟨MutatorsFactory.new.init, manager⟩
  let (killed, kept) ← printKilled files memory showKilled result.mutants groups.killed kept
  let (survived, kept) ← printMutants files memory result.mutants groups.survived "Survived".toList kept
  let (notCovered, kept) ← printMutants files memory result.mutants groups.notCovered
    "Not Covered".toList kept
  let allKilled := if groups.survived.isEmpty && groups.notCovered.isEmpty then
    [Output.info "All mutations have been killed".toList] else []
  pure (killed ++ survived ++ notCovered ++ allKilled ++
    [.info (scoreLine groups.killed.length result.mutants.length)], kept.manager)

end

/-! ### What is printed -/

def Shown (files : Files) (location : SourceLocation) : Prop :=
  ∃ content i column text next, files location.filePath = some content ∧
    SourceCodeReader.Readable content location i column text next

structure Printable (files : Files) (mutant : Mutant) : Prop where
  known : ∃ mutator : Mutator, mutant.mutatorIdentifier = mutator.getUniqueIdentifier
  shown : Shown files mutant.sourceLocation

/-- The line of the mutant with the caret under it, behind what is said of the mutant. -/
def printed (files : Files) (status : Text) (mutant : Mutant) : Output :=
  .stdout (((mutatorOf mutant.mutatorIdentifier).elim [] (warning mutant · status) ++
    (realLine files mutant.sourceLocation ++ SourceCodeReader.caretUnder
      (realLine files mutant.sourceLocation)
      (toSize mutant.sourceLocation.column) ++ ['\n'])).takeWhile (· ≠ '\x00'))

def group (files : Files) (status : Text) (mutants : List Mutant) (totalSize : Nat) : List Output :=
  if mutants.isEmpty then [] else .info (heading status mutants.length totalSize) :: mutants.map
    (printed files status)

section
variable {files : Files} {kept : Kept}

/-- The factory is as it was made, and what is kept of files is theirs. -/
structure Ready (files : Files) (kept : Kept) : Prop where
  factory : kept.factory = MutatorsFactory.new.init
  cached : Cached files kept.manager

theorem printMutant_printed (ready : Ready files kept) {mutant : Mutant} (printable : Printable files mutant)
    (memory : SourceCodeReader.Memory) (status : Text) :
    ∃ after, Ready files after ∧ printMutant files memory mutant status kept =
      .ok (printed files status mutant, after) := by
  obtain ⟨⟨mutator, identifier⟩, content, i, column, text, next, exists_, readable⟩ := printable
  obtain ⟨after, read⟩ := readable.plain ready.cached exists_ memory
  obtain ⟨_, got, -, -, -⟩ := SourceCodeReader.getSourceLineWithCaret_ok read
  have cached := (SourceCodeReader.getLine_line ready.cached exists_ got).1
  have present : mutant.sourceLocation.isNull = false := by
    rw [← Bool.not_eq_true, SourceLocation.isNull_iff]
    intro null
    have line := readable.line
    rw [null.1] at line
    have zero : (0 : Int32).toInt = 0 := rfl
    omega
  have found : kept.factory.getMutator mutant.mutatorIdentifier = (some mutator, kept.factory) := by
    unfold MutatorsFactory.getMutator
    rw [ready.factory, identifier, MutatorsFactory.init_known]
  refine ⟨⟨kept.factory, after⟩, ⟨ready.factory, cached⟩, ?_⟩
  unfold printMutant printed
  rw [present, found, read, identifier, mutatorOf_known,
    SourceCodeReader.realLine_eq exists_ readable.line readable.found, toSize_of readable.position]
  rfl

theorem printEach_printed {all : List Mutant} {memory : Nat → SourceCodeReader.Memory} {status : Text}
    {pointers : List Nat} {mutants : List Mutant}
    (related : List.Forall₂ (fun i mutant => all[i]? = some mutant) pointers mutants)
    (printable : ∀ mutant ∈ mutants, Printable files mutant) (ready : Ready files kept) :
      ∃ after, Ready files after ∧
      printEach files memory all status pointers kept = .ok (mutants.map (printed files status), after) := by
  induction related generalizing kept with
  | nil => exact ⟨kept, ready, rfl⟩
  | @cons i mutant _ _ here rest ih =>
    obtain ⟨between, ready, first⟩ :=
      printMutant_printed ready (printable mutant List.mem_cons_self) (memory i) status
    obtain ⟨after, ready, later⟩ := ih (fun other mem => printable other (List.mem_cons_of_mem _ mem)) ready
    refine ⟨after, ready, ?_⟩
    unfold printEach
    rw [here]
    simp only [bind, Except.bind, first, later]
    rfl

theorem printMutants_group (memory : Nat → SourceCodeReader.Memory) (status : Text) {all : List Mutant}
    {pointers : List Nat}
    {mutants : List Mutant} (related : List.Forall₂ (fun i mutant => all[i]? = some mutant) pointers mutants)
    (printable : ∀ mutant ∈ mutants, Printable files mutant) (ready : Ready files kept) :
      ∃ after, Ready files after ∧
      printMutants files memory all pointers status kept =
        .ok (group files status mutants all.length, after) := by
  unfold printMutants group
  have length := related.length_eq
  cases related with
  | nil => exact ⟨kept, ready, rfl⟩
  | cons here rest =>
    obtain ⟨after, ready, done⟩ := printEach_printed (.cons here rest) printable ready
    refine ⟨after, ready, ?_⟩
    rw [done, ← length]
    rfl

theorem foldl_pushResult (mutationResults : List MutationResult) (groups : Groups) :
    mutationResults.foldl pushResult groups =
      { killed := groups.killed ++ (mutationResults.filter fun r => verdictOf r.result.status = .killed).map
          MutationResult.mutant
        survived :=
          groups.survived ++ (mutationResults.filter fun r => verdictOf r.result.status = .survived).map
          MutationResult.mutant
        notCovered :=
          groups.notCovered ++ (mutationResults.filter fun r => verdictOf r.result.status = .notCovered).map
          MutationResult.mutant } := by
  induction mutationResults generalizing groups with
  | nil => simp
  | cons first rest ih =>
    rw [List.foldl_cons, ih]
    unfold pushResult verdictOf
    by_cases survived : mutantSurvived first.result.status = true
    · simp [survived]
    · by_cases notCovered : mutantNotCovered first.result.status = true
      · simp [survived, notCovered]
      · simp [survived, notCovered]

theorem group_related {result : Result} (complete : result.Complete) (verdict : Verdict) :
    List.Forall₂ (fun i mutant => result.mutants[i]? = some mutant)
      ((result.mutationResults.filter fun r => verdictOf r.result.status = verdict).map MutationResult.mutant)
      (result.withVerdict verdict) := by
  have agree : ∀ (r : MutationResult) (pair : Mutant × Verdict), result.mutants[r.mutant]? = some pair.1 ∧
      verdictOf r.result.status = pair.2 → decide (verdictOf r.result.status = verdict) =
        decide (pair.2 = verdict) :=
    fun r pair same => by rw [same.2]
  have related := filter_related complete.related agree
  unfold Result.withVerdict
  rw [List.forall₂_map_left_iff, List.forall₂_map_right_iff]
  exact related.imp fun _ _ same => same.1

def report (files : Files) (showKilled : Bool) (result : Result) : List Output :=
  if result.mutants.isEmpty then [.info noMutants]
  else (if showKilled then group files "Killed".toList (result.withVerdict .killed)
    result.mutants.length else []) ++
    group files "Survived".toList (result.withVerdict .survived) result.mutants.length ++
    group files "Not Covered".toList (result.withVerdict .notCovered) result.mutants.length ++
    (if (result.withVerdict .survived).isEmpty && (result.withVerdict .notCovered).isEmpty then
      [.info "All mutations have been killed".toList] else []) ++
    [.info (scoreLine (result.withVerdict .killed).length result.mutants.length)]

theorem reportResults_report {result : Result} (complete : result.Complete)
    (printable : ∀ mutant ∈ result.mutants, Printable files mutant) (memory : Nat → SourceCodeReader.Memory)
    (showKilled : Bool) {manager : SourceManager} (cached : Cached files manager) :
    ∃ after, reportResults files memory showKilled result manager =
      .ok (report files showKilled result, after) := by
  have related := group_related complete
  have length (verdict : Verdict) := (related verdict).length_eq
  have printable' (verdict : Verdict) : ∀ mutant ∈ result.withVerdict verdict, Printable files mutant := by
    intro mutant mem
    refine printable mutant (complete.partition.mem_iff.mp ?_)
    cases verdict <;> simp [mem]
  have total := complete.partition.length_eq
  rw [List.length_append, List.length_append, ← complete.length] at total
  have empty (verdict : Verdict) :
    ((result.mutationResults.filter fun r => verdictOf r.result.status = verdict).map
      MutationResult.mutant).isEmpty = (result.withVerdict verdict).isEmpty := by
    rw [Bool.eq_iff_iff, List.isEmpty_iff_length_eq_zero, List.isEmpty_iff_length_eq_zero, length]
  unfold reportResults report
  by_cases none : result.mutants.isEmpty = true
  · rw [if_pos none, if_pos none]
    exact ⟨manager, rfl⟩
  rw [if_neg none, if_neg none, foldl_pushResult]
  simp only [List.nil_append, length, empty]
  rw [if_neg (not_not_intro total)]
  have start : Ready files ⟨MutatorsFactory.new.init, manager⟩ := ⟨rfl, cached⟩
  obtain ⟨first, ready, killed⟩ : ∃ after, Ready files after ∧
    printKilled files memory showKilled result.mutants
      ((result.mutationResults.filter fun r => verdictOf r.result.status = .killed).map MutationResult.mutant)
      ⟨MutatorsFactory.new.init, manager⟩ = .ok (if showKilled then group files "Killed".toList
        (result.withVerdict .killed) result.mutants.length else [], after) := by
    cases showKilled with
    | false => exact ⟨_, start, rfl⟩
    | true => exact printMutants_group memory _ (related .killed) (printable' .killed) start
  obtain ⟨second, ready, survived⟩ := printMutants_group memory "Survived".toList (related .survived)
    (printable' .survived) ready
  obtain ⟨third, ready, notCovered⟩ := printMutants_group memory "Not Covered".toList (related .notCovered)
    (printable' .notCovered) ready
  simp only [bind, Except.bind, killed, survived, notCovered]
  exact ⟨third.manager, rfl⟩

end
end IDEReporter
end Mull.Reporters
