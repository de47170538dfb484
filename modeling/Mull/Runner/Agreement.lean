import Mull.Driver.Deduplication
import Mull.Driver.Recording
import Mull.Runner.RecordRoundTrip

/-! The mutants the runner reads from a prepared program against the ones the driver reports. -/

namespace Mull.Runner
open Base Driver MutationPoint

/-- For every order of the modules, padding of the records and iteration of the hash map, the runner
reads the reported mutants, each once. -/
def Agrees (points : List MutationPoint) : Prop :=
  ∀ bitcodes executable iteration, bitcodes.Nodup → (∀ point ∈ points, point.bitcode ∈ bitcodes) →
    Carries (linkedRecords bitcodes points) executable → iteration.Perm (mapping points) →
    ∃ mutants, extractMutants executable = .ok mutants ∧
      (mutants.map Mutant.view).Perm ((deduplicate iteration).map Mutant.view)

section
variable {points : List MutationPoint}

/-- The paths that the agreement is about. -/
def PlainPaths (points : List MutationPoint) : Prop :=
  ∀ point ∈ points, ':' ∉ point.sourceLocation.filePath ∧ '\x00' ∉ point.sourceLocation.filePath

instance : Decidable (PlainPaths points) := List.decidableBAll _ points

theorem linked_extract {bitcodes : List Nat} {executable : Executable} (plain : PlainPaths points)
    (distinct : bitcodes.Nodup) (within : ∀ point ∈ points, point.bitcode ∈ bitcodes)
    (carried : Carries (linkedRecords bitcodes points) executable) :
    extractMutants executable = (linkedRecords bitcodes points).mapM decodeMutant := by
  refine extractMutants_carried carried ?_
  rw [linkedRecords_eq]
  refine encodings_chunks fun point mem => (plain point ?_).2
  exact (linkedPoints_perm distinct within).mem_iff.mp mem

theorem decodeMutant_chunks {encoding : Text} {mutant : Mutant} (ok : decodeMutant encoding = .ok mutant) :
    7 ≤ (splitChunks ':' encoding).length := by
  obtain ⟨_, _, ok⟩ := bind_ok ok
  obtain ⟨_, _, ok⟩ := bind_ok ok
  obtain ⟨_, _, ok⟩ := bind_ok ok
  obtain ⟨_, _, ok⟩ := bind_ok ok
  obtain ⟨_, _, ok⟩ := bind_ok ok
  obtain ⟨_, _, ok⟩ := bind_ok ok
  obtain ⟨_, covered, _⟩ := bind_ok ok
  by_contra short
  rw [List.getElem?_eq_none (by omega)] at covered
  cases covered

theorem emptyPath_chunks {point : MutationPoint} (empty : point.sourceLocation.filePath = []) :
    (splitChunks ':' point.encoding).length = 6 := by
  have numeral (n : Int32) : IsChunk ':' (toText n) :=
    ⟨toText_ne_nil n, toText_free (by decide) (by decide) n⟩
  have mutator : IsChunk ':' point.mutator.getUniqueIdentifier :=
    ⟨point.mutator.getUniqueIdentifier_ne_nil, point.mutator.getUniqueIdentifier_free rfl (by decide)⟩
  have rest : joinChunks ':' point.parts =
      point.mutator.getUniqueIdentifier ++ ':' :: ':' :: joinChunks ':' (point.parts.drop 2) := by
    simp [parts, joinChunks, empty]
  rw [encoding_eq, rest, splitChunks_append mutator, splitChunks_delimiter, splitChunks_joinChunks]
  · rfl
  · simp [parts, flag, numeral]

theorem decoded_nonempty {linked : List MutationPoint} {mutants : List Mutant}
    (decoded : (linked.map encoding).mapM decodeMutant = .ok mutants) :
    ∀ point ∈ linked, point.sourceLocation.filePath ≠ [] := by
  rw [mapM_ok_iff, List.forall₂_map_left_iff] at decoded
  intro point mem empty
  obtain ⟨i, bound, rfl⟩ := List.getElem_of_mem mem
  have ok := (List.forall₂_iff_get.mp decoded).2 i bound (decoded.length_eq ▸ bound)
  have chunks := decodeMutant_chunks ok
  rw [List.get_eq_getElem, emptyPath_chunks empty] at chunks
  omega

theorem linked_decoded {linked : List MutationPoint}
    (paths : ∀ point ∈ linked, point.sourceLocation.filePath ≠ []) (plain : PlainPaths linked) :
    (linked.map encoding).mapM decodeMutant = .ok (linked.map recordedMutant) := by
  rw [List.mapM_map]
  exact mapM_ok fun point mem => decodeMutant_encoding (paths point mem) (plain point mem).1

theorem nodup_of_length {xs : List Text} (length : xs.dedup.length = xs.length) : xs.Nodup :=
  (List.dedup_sublist xs).eq_of_length length ▸ List.nodup_dedup xs

theorem agrees_distinct (plain : PlainPaths points) (agrees : Agrees points) :
    (points.map getUserIdentifier).Nodup ∧ ∀ point ∈ points, point.sourceLocation.filePath ≠ [] := by
  have distinct := List.nodup_dedup (points.map MutationPoint.bitcode)
  have within : ∀ point ∈ points, point.bitcode ∈ (points.map MutationPoint.bitcode).dedup :=
    fun point mem => List.mem_dedup.mpr (List.mem_map_of_mem mem)
  have linked := linkedPoints_perm distinct within
  obtain ⟨executable, carried⟩ :=
    carried_exists (linkedRecords (points.map MutationPoint.bitcode).dedup points)
  obtain ⟨mutants, extracted, views⟩ := agrees _ executable _ distinct within carried (.refl _)
  rw [linked_extract plain distinct within carried, linkedRecords_eq] at extracted
  have count : mutants.length = points.length := by
    rw [← (mapM_ok_iff.mp extracted).length_eq, List.length_map, linked.length_eq]
  refine ⟨nodup_of_length ?_, fun point mem => decoded_nonempty extracted point (linked.mem_iff.mpr mem)⟩
  rw [← deduplicate_length (.refl (mapping points)), ← List.length_map (f := Mutant.view), ← views.length_eq,
    List.length_map, List.length_map, count]

/-- The runner and the driver agree exactly when no two points share an identifier and every path has a
name. -/
theorem agrees_iff (plain : PlainPaths points) :
    Agrees points ↔
      (points.map getUserIdentifier).Nodup ∧ ∀ point ∈ points, point.sourceLocation.filePath ≠ [] := by
  refine ⟨agrees_distinct plain, ?_⟩
  rintro ⟨identifiers, paths⟩ bitcodes executable iteration distinct within carried iterated
  have linked := linkedPoints_perm distinct within
  refine ⟨(linkedPoints bitcodes points).map recordedMutant, ?_, ?_⟩
  · rw [linked_extract plain distinct within carried, linkedRecords_eq]
    exact linked_decoded (fun point mem => paths point (linked.mem_iff.mp mem))
      (fun point mem => plain point (linked.mem_iff.mp mem))
  · rw [List.map_map]
    exact (linked.map view).trans (deduplicate_distinct iterated identifiers).symm

theorem agrees_two_modules :
    Agrees [pointAt .addToSub "/src/main.cpp".toList 3 14,
      { pointAt .mulToDiv "/src/main.cpp".toList 3 14 with bitcode := 1, covered := false }] :=
  (agrees_iff (by decide)).mpr (by decide)

/-- An inlined header function has its points in two modules: two records, one mutant. -/
theorem not_agrees_shared_identifier :
    PlainPaths [pointAt .addToSub "/src/a.h".toList 3 14,
        { pointAt .addToSub "/src/a.h".toList 3 14 with bitcode := 1, covered := false }] ∧
      ¬ Agrees [pointAt .addToSub "/src/a.h".toList 3 14,
        { pointAt .addToSub "/src/a.h".toList 3 14 with bitcode := 1, covered := false }] := by
  exact ⟨by decide, fun agrees => absurd (agrees_distinct (by decide) agrees).1 (by decide)⟩

end

end Mull.Runner
