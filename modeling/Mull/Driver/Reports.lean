import Mull.Driver.Run
import Mull.Reporters.MutationTestingElementsReporter

/-! What the reporters make of a run: both tell the same of each mutant. -/

namespace Mull.Driver
open Base LLVM Preparation Toolchain Runner Reporters

def Outcome.result (outcome : Outcome) : Result := ⟨outcome.mutants, outcome.mutationResults⟩

section
variable {around : Surroundings} {config : RunConfiguration} {program : List Module} {outcome : Outcome}

theorem run_complete (workers : 1 ≤ config.workers) (mutantWorkers : 1 ≤ config.runner.mutantExecutionWorkers)
    (tested : config.mutateOnly = false) (run : Run around config program outcome) :
      outcome.result.Complete := by
  obtain ⟨mutants, results⟩ := run_report workers mutantWorkers run
  have pointers (f : Mutant × Nat → MutationResult) (own : ∀ pair, (f pair).mutant = pair.2) :
      ((reportedMutants around config program).zipIdx.map f).map MutationResult.mutant =
        List.range (reportedMutants around config program).length := by
    rw [List.map_map, show MutationResult.mutant ∘ f = Prod.snd from funext own, List.zipIdx_map_snd,
      List.range_eq_range']
  unfold Result.Complete Outcome.result
  rw [mutants, results]
  unfold reportedResults
  simp only [tested, Bool.false_eq_true, if_false]
  split
  · exact pointers _ fun _ => rfl
  · exact pointers _ fun _ => rfl

theorem reportedMutants_known {mutant : Mutant} (mem : mutant ∈ reportedMutants around config program) :
    ∃ mutator : Mutator, mutant.mutatorIdentifier = mutator.getUniqueIdentifier := by
  have reported := (deduplicate_perm _).mem_iff.mp mem
  obtain ⟨pair, -, made⟩ := List.mem_filterMap.mp reported
  unfold reportMutant at made
  split at made
  · cases made
  · rename_i point _ _
    cases made
    exact ⟨point.mutator, rfl⟩

/-- Where all mutants can be shown, a run is reported by both reporters. Of every mutant one thing is said; on
the standard output a mutant is in the group of what is said of it, in the document it is under its file with
the same verdict, and both give the same score. -/
theorem reporters_agree (workers : 1 ≤ config.workers)
    (mutantWorkers : 1 ≤ config.runner.mutantExecutionWorkers)
    (tested : config.mutateOnly = false) (run : Run around config program outcome)
    (some_mutant : outcome.mutants ≠ [])
    {files : Files} (shown : ∀ mutant ∈ outcome.mutants, IDEReporter.Shown files mutant.sourceLocation)
    (memory : Nat → SourceCodeReader.Memory) (buffers : Nat → Nat → Char) (jsonPath : Text)
    (showKilled : Bool) :
    ∃ after document said,
      IDEReporter.reportResults files memory showKilled outcome.result .new =
        .ok (IDEReporter.report files showKilled outcome.result, after) ∧
      MutationTestingElementsReporter.reportResults files buffers jsonPath outcome.result =
        .ok (said, some document) ∧
      (outcome.result.withVerdict .killed ++ outcome.result.withVerdict .survived ++
        outcome.result.withVerdict .notCovered).Perm outcome.mutants ∧
      Output.info (IDEReporter.scoreLine (outcome.result.withVerdict .killed).length outcome.mutants.length) ∈
        IDEReporter.report files showKilled outcome.result ∧
      document.mutationScore = score (outcome.result.withVerdict .killed).length outcome.mutants.length ∧
      (document.files.map Prod.fst).Pairwise (· < ·) ∧
      (document.files.flatMap fun file => file.2.mutants.map some).Perm
        (outcome.result.judged.map MutationTestingElementsReporter.entryOf) ∧
      ∀ file ∈ document.files, file.2.mutants.map some = (outcome.result.judged.filter fun pair =>
        MutationTestingElementsReporter.fileOf pair = file.1).map MutationTestingElementsReporter.entryOf := by
  have complete := run_complete workers mutantWorkers tested run
  have reported := (run_report workers mutantWorkers run).1
  have printable : ∀ mutant ∈ outcome.result.mutants, IDEReporter.Printable files mutant := by
    intro mutant mem
    have listed : mutant ∈ outcome.mutants := mem
    rw [reported] at listed
    exact ⟨reportedMutants_known listed, shown mutant mem⟩
  have known : ∀ pair ∈ outcome.result.judged, (MutationTestingElementsReporter.entryOf pair).isSome = true := by
    intro pair mem
    obtain ⟨mutator, identifier⟩ := (printable pair.1 (complete.judged_fst ▸ List.mem_map_of_mem mem)).known
    unfold MutationTestingElementsReporter.entryOf
    rw [identifier, mutatorOf_known]
    rfl
  obtain ⟨after, ide⟩ :=
    IDEReporter.reportResults_report complete printable memory showKilled (SourceManager.new_cached files)
  have elements :=
    MutationTestingElementsReporter.reportResults_document complete some_mutant printable buffers jsonPath
  refine ⟨after, _, _, ide, elements, complete.partition, ?_, rfl,
    MutationTestingElementsReporter.filesOf_sorted, MutationTestingElementsReporter.filesOf_perm known,
    fun file mem => MutationTestingElementsReporter.mem_filesOf known mem⟩
  have not_empty : ¬ outcome.result.mutants.isEmpty = true :=
    fun none => some_mutant (List.isEmpty_iff.mp none)
  unfold IDEReporter.report
  rw [if_neg not_empty]
  exact List.mem_append_right _ (List.mem_singleton_self _)

end

def incrementSource : Text := "int increment(int count)\n\x7b return count + 1;\n\x7d\n".toList

def incrementFiles : Files := fun path =>
  if path ∈ ["/src/count.c".toList, "/src/idle.c".toList, "/src/tally.c".toList] then some
    incrementSource else none

theorem reporters_agree_increment : ∃ outcome after document said,
    Run sampleSurroundings (incrementConfiguration 2) incrementProgram outcome ∧
    (outcome.result.withVerdict .killed).length = 1 ∧ (outcome.result.withVerdict .survived).length = 1 ∧
    (outcome.result.withVerdict .notCovered).length = 1 ∧
    IDEReporter.reportResults incrementFiles (fun _ _ _ => '?') true outcome.result .new =
      .ok (IDEReporter.report incrementFiles true outcome.result, after) ∧
    MutationTestingElementsReporter.reportResults incrementFiles (fun _ _ => '?') "/src/json".toList
      outcome.result =
      .ok (said, some document) ∧
    (outcome.result.withVerdict .killed ++ outcome.result.withVerdict .survived ++
      outcome.result.withVerdict .notCovered).Perm outcome.mutants ∧
    Output.info (IDEReporter.scoreLine (outcome.result.withVerdict .killed).length outcome.mutants.length) ∈
      IDEReporter.report incrementFiles true outcome.result ∧
    document.mutationScore = score (outcome.result.withVerdict .killed).length outcome.mutants.length ∧
    (document.files.map Prod.fst).Pairwise (· < ·) ∧
    (document.files.flatMap fun file => file.2.mutants.map some).Perm
      (outcome.result.judged.map MutationTestingElementsReporter.entryOf) ∧
    ∀ file ∈ document.files, file.2.mutants.map some = (outcome.result.judged.filter fun pair =>
      MutationTestingElementsReporter.fileOf pair = file.1).map MutationTestingElementsReporter.entryOf := by
  have run := run_increment .zeros "/tmp/".toList one_le_two
  have mutants := @reportedMutants_increment .zeros "/tmp/".toList (incrementConfiguration 2) rfl
  have statuses := @reportedResults_increment .zeros "/tmp/".toList (incrementConfiguration 2) rfl rfl rfl
  have judged : (incrementOutcome .zeros "/tmp/".toList (incrementConfiguration 2)).result.judged =
      incrementMutants.zip [.killed, .notCovered, .survived] := by
    unfold Result.judged
    rw [show (fun result : MutationResult => verdictOf result.result.status) =
      verdictOf ∘ fun result => result.result.status from rfl, ← List.map_map]
    exact congrArg₂ List.zip mutants (congrArg (List.map verdictOf) statuses)
  have some_mutant : (incrementOutcome .zeros "/tmp/".toList (incrementConfiguration 2)).mutants ≠ [] := by
    rw [show (incrementOutcome .zeros "/tmp/".toList (incrementConfiguration 2)).mutants =
      incrementMutants from mutants]
    decide
  have shown : ∀ mutant ∈ (incrementOutcome .zeros "/tmp/".toList (incrementConfiguration 2)).mutants,
      IDEReporter.Shown incrementFiles mutant.sourceLocation := by
    intro mutant mem
    have places : ∀ mutant ∈ incrementMutants, incrementFiles mutant.sourceLocation.filePath =
      some incrementSource ∧
        mutant.sourceLocation.line = 2 ∧ mutant.sourceLocation.column = 16 := by decide +kernel
    obtain ⟨file, line, column⟩ := places mutant (mutants ▸ mem)
    refine ⟨incrementSource, 1, 16, "\x7b return count + 1;\n".toList, "\x7d\n".toList, file, ?_⟩
    exact ⟨by rw [line]; rfl, by decide, by decide, by decide, by decide, by decide, by rw [column]; rfl,
      by decide, by decide⟩
  obtain ⟨after, document, said, reported⟩ := reporters_agree one_le_two one_le_two rfl run
    some_mutant shown (fun _ _ _ => '?') (fun _ _ => '?') "/src/json".toList true
  refine ⟨_, after, document, said, run, ?_, ?_, ?_, reported⟩
  · rw [Result.withVerdict, judged]
    rfl
  · rw [Result.withVerdict, judged]
    rfl
  · rw [Result.withVerdict, judged]
    rfl

end Mull.Driver
