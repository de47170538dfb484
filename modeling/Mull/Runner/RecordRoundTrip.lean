import Mull.Base.Fallible
import Mull.Runner.MutantExtractor

/-! Records of mutation points through the section of an executable: they come back whole exactly when
no path is empty or contains the separator. -/

namespace Mull.Runner
open Base MutationPoint

/-- An object file with one section of records, padded in any way. -/
def Carries (records : List Text) (executable : Executable) : Prop :=
  ∃ sections content, executable = .objectFile sections ∧ Padded '\x00' records content ∧
    (sections.filter fun s => s.name == sectionName) = [⟨sectionName, content⟩]

/-- Whatever the padding, the runner reads one mutant for each record, in order, and each says what its
mutation point says. -/
def RoundTrips (points : List MutationPoint) : Prop :=
  ∀ executable, Carries (points.map encoding) executable →
    ∃ mutants, extractMutants executable = .ok mutants ∧ mutants.map Mutant.view = points.map view

theorem extractMutants_carried {records : List Text} {executable : Executable}
    (carried : Carries records executable) (ok : ∀ record ∈ records, IsChunk '\x00' record) :
    extractMutants executable = records.mapM decodeMutant := by
  obtain ⟨sections, content, rfl, padded, only⟩ := carried
  simp [extractMutants, only, padded.splitChunks_eq ok]

theorem carried_exists (records : List Text) : ∃ executable, Carries records executable :=
  ⟨.objectFile [⟨sectionName, records.flatMap (· ++ ['\x00'])⟩], _, _, rfl, padded_flatten records, by simp⟩

def recordedMutant (point : MutationPoint) : Mutant where
  identifier := point.getUserIdentifier
  mutatorIdentifier := point.mutator.getUniqueIdentifier
  sourceLocation := ⟨[], point.sourceLocation.filePath, [], point.sourceLocation.filePath,
    point.sourceLocation.line, point.sourceLocation.column⟩
  endLocation := ⟨[], point.sourceLocation.filePath, [], point.sourceLocation.filePath,
    point.endLocation.line, point.endLocation.column⟩
  covered := point.covered

theorem recordedMutant_view (point : MutationPoint) : (recordedMutant point).view = point.view := rfl

theorem stoi_flag (value : Bool) : ∃ n, stoi (flag value) = some n ∧ (n != 0) = value :=
  ⟨if value then 1 else 0, stoi_toText _, by cases value <;> decide⟩

theorem decodeMutant_encoding {point : MutationPoint} (nonempty : point.sourceLocation.filePath ≠ [])
    (free : ':' ∉ point.sourceLocation.filePath) :
    decodeMutant point.encoding = .ok (recordedMutant point) := by
  have chunks : splitChunks ':' point.encoding = point.parts := by
    rw [encoding_eq, splitChunks_joinChunks (parts_isChunk nonempty free)]
  obtain ⟨covered, read, value⟩ := stoi_flag point.covered
  simp [decodeMutant, chunks, parts, orCrash, stoi_toText, read, value, bind, Except.bind, pure, Except.pure,
    recordedMutant, getUserIdentifier]

theorem decodeMutant_path {encoding : Text} {mutant : Mutant} (ok : decodeMutant encoding = .ok mutant) :
    IsChunk ':' mutant.sourceLocation.filePath := by
  obtain ⟨_, _, ok⟩ := bind_ok ok
  obtain ⟨location, read, ok⟩ := bind_ok ok
  obtain ⟨_, _, ok⟩ := bind_ok ok
  obtain ⟨_, _, ok⟩ := bind_ok ok
  obtain ⟨_, _, ok⟩ := bind_ok ok
  obtain ⟨_, _, ok⟩ := bind_ok ok
  obtain ⟨_, _, ok⟩ := bind_ok ok
  cases ok
  cases chunk : (splitChunks ':' encoding)[1]? with
  | none => simp [chunk, orCrash] at read
  | some text =>
    simp only [chunk, orCrash, Except.ok.injEq] at read
    exact read ▸ splitChunks_isChunk (List.mem_of_getElem? chunk)

theorem decoded_path {points : List MutationPoint} {mutants : List Mutant}
    (decoded : (points.map encoding).mapM decodeMutant = .ok mutants)
    (views : mutants.map Mutant.view = points.map view) :
    ∀ point ∈ points, IsChunk ':' point.sourceLocation.filePath := by
  rw [mapM_ok_iff, List.forall₂_map_left_iff] at decoded
  induction decoded with
  | nil => simp
  | @cons point mutant points mutants ok _ ih =>
    simp only [List.map_cons, List.cons.injEq] at views
    intro other mem
    rcases List.mem_cons.mp mem with rfl | mem
    · have path : mutant.sourceLocation.filePath = other.sourceLocation.filePath :=
        congrArg Mutant.View.filePath views.1
      exact path ▸ decodeMutant_path ok
    · exact ih views.2 other mem

theorem encodings_chunks {points : List MutationPoint}
    (nul : ∀ point ∈ points, '\x00' ∉ point.sourceLocation.filePath) :
    ∀ record ∈ points.map encoding, IsChunk '\x00' record := by
  intro record mem
  obtain ⟨point, inList, rfl⟩ := List.mem_map.mp mem
  exact encoding_isChunk (nul point inList)

theorem roundTrips_paths {points : List MutationPoint}
    (nul : ∀ point ∈ points, '\x00' ∉ point.sourceLocation.filePath) (survives : RoundTrips points) :
    ∀ point ∈ points, IsChunk ':' point.sourceLocation.filePath := by
  obtain ⟨executable, carried⟩ := carried_exists (points.map encoding)
  obtain ⟨mutants, extracted, views⟩ := survives executable carried
  exact decoded_path (extractMutants_carried carried (encodings_chunks nul) ▸ extracted) views

/-- Records survive the executable exactly when no path is empty or contains the separator. -/
theorem roundTrips_iff {points : List MutationPoint}
    (nul : ∀ point ∈ points, '\x00' ∉ point.sourceLocation.filePath) :
    RoundTrips points ↔
      ∀ point ∈ points, point.sourceLocation.filePath ≠ [] ∧ ':' ∉ point.sourceLocation.filePath := by
  refine ⟨roundTrips_paths nul, fun paths executable carried => ?_⟩
  have decoded : (points.map encoding).mapM decodeMutant = .ok (points.map recordedMutant) := by
    rw [List.mapM_map]
    exact mapM_ok fun point mem => decodeMutant_encoding (paths point mem).1 (paths point mem).2
  refine ⟨points.map recordedMutant, ?_, ?_⟩
  · rw [extractMutants_carried carried (encodings_chunks nul), decoded]
  · simp [recordedMutant_view]

def pointAt (mutator : Mutator) (path : Text) (line column : Int32) : MutationPoint where
  mutator := mutator
  irMutator := none
  address := ⟨0, 0, 0⟩
  bitcode := 0
  originalFunction := 0
  mutatedFunction := none
  sourceLocation := ⟨"/src".toList, path, "/src".toList, path, line, column⟩
  endLocation := ⟨"/src".toList, path, "/src".toList, path, line, column + 1⟩
  covered := true

theorem roundTrips_two_records :
    RoundTrips [pointAt .addToSub "/src/main.cpp".toList 3 14, pointAt .mulToDiv "/src/a.h".toList 7 1] :=
  (roundTrips_iff (by decide)).mpr (by decide)

/-- The runner takes the part of a path before a colon for the whole path. -/
theorem not_roundTrips_colon :
    (∀ point ∈ [pointAt .addToSub "/src/a:1.cpp".toList 3 14], '\x00' ∉ point.sourceLocation.filePath) ∧
      ¬ RoundTrips [pointAt .addToSub "/src/a:1.cpp".toList 3 14] := by
  have nul : ∀ point ∈ [pointAt .addToSub "/src/a:1.cpp".toList 3 14],
      '\x00' ∉ point.sourceLocation.filePath := by decide
  refine ⟨nul, fun survives => ?_⟩
  have chunk := roundTrips_paths nul survives _ (List.mem_singleton_self _)
  exact chunk.2 (by decide)

end Mull.Runner
