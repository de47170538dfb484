import Mull.Frontend.Plugin
import Mull.Runner.RecordRoundTrip

/-! The records of a program's translation units: what the linker makes of them, and that the runner reads them
back. -/

namespace Mull.Frontend
open Base Runner

/-- A literal is cut or filled with zeros until it has the size of its type. -/
def RecordDecl.emitted (record : RecordDecl) : Text :=
  (record.init.value ++ List.replicate record.init.type.size '\x00').take record.init.type.size

/-- Variables one after the other in a section, with zeros before them, between them and after. -/
inductive Laid : List Text → Text → Prop
  | done (count : Nat) : Laid [] (List.replicate count '\x00')
  | next (count : Nat) {text : Text} {texts : List Text} {content : Text} :
      Laid texts content → Laid (text :: texts) (List.replicate count '\x00' ++ text ++ content)

/-- The object files can be linked to this executable: no variable is defined twice, and the records are in its
section. -/
structure Links (objects : List Instrumented) (executable : Executable) : Prop where
  names : ((objects.flatMap Instrumented.records).map RecordDecl.name).Nodup
  laid : ∃ (order : List RecordDecl) (sections : List ObjectSection) (content : Text),
    order.Perm (objects.flatMap Instrumented.records) ∧
    executable = .objectFile sections ∧ Laid (order.map RecordDecl.emitted) content ∧
    (sections.filter fun s => s.name == sectionName) = [⟨sectionName, content⟩]

def ASTMutationPoint.view {μ : Type} (point : ASTMutationPoint μ) : Mutant.View where
  identifier := point.mutationIdentifier
  mutatorIdentifier := point.identifier
  filePath := point.sourceFilePath
  beginLine := point.beginLine
  beginColumn := point.beginColumn
  endLine := point.endLine
  endColumn := point.endColumn
  covered := true

/-- A path that a record can hold. -/
def Recordable (path : Text) : Prop := ':' ∉ path ∧ '\x00' ∉ path

def ASTMutationPoint.parts {μ : Type} (point : ASTMutationPoint μ) : List Text :=
  [point.identifier, point.sourceFilePath, toText point.beginLine, toText point.beginColumn,
    toText point.endLine, toText point.endColumn, toText 1]

def ASTMutationPoint.mutant {μ : Type} (point : ASTMutationPoint μ) : Mutant where
  identifier := point.mutationIdentifier
  mutatorIdentifier := point.identifier
  sourceLocation := ⟨[], point.sourceFilePath, [], point.sourceFilePath, point.beginLine, point.beginColumn⟩
  endLocation := ⟨[], point.sourceFilePath, [], point.sourceFilePath, point.endLine, point.endColumn⟩
  covered := true

/-- A point as the plugin records it, at a path that a record can hold. -/
structure Recorded {μ : Type} (point : ASTMutationPoint μ) : Prop where
  mapped : ∃ entry ∈ MUTATIONS_MAP, entry.2 = point.mutationType
  identifier : point.identifier = getIdentifier point.mutationType
  somewhere : point.sourceFilePath ≠ []
  path : Recordable point.sourceFilePath

section
variable {μ : Type} {point point' : ASTMutationPoint μ}

theorem emitted_of_room (room : HasRoom point) :
    point.recordDecl.emitted = point.mutationBinaryRecord ++ ['\x00'] := by
  have value : point.recordDecl.init.value = point.mutationBinaryRecord := rfl
  unfold RecordDecl.emitted
  rw [room.1, value, List.take_length_add_append]
  rfl

theorem Laid.padded {records : List Text} {content : Text}
    (laid : Laid (records.map (· ++ ['\x00'])) content) :
    Padded '\x00' records content := by
  induction records generalizing content with
  | nil =>
    cases laid with
    | done count => exact .done count
  | cons record records ih =>
    cases laid with
    | next count rest =>
      rw [← List.append_assoc, List.append_assoc (_ ++ record)]
      exact .record count (ih rest)

theorem laid_flatten (texts : List Text) : Laid texts texts.flatten := by
  induction texts with
  | nil => exact .done 0
  | cons text texts ih => exact .next 0 ih

theorem exists_links {objects : List Instrumented}
    (names : ((objects.flatMap Instrumented.records).map RecordDecl.name).Nodup) :
    ∃ executable, Links objects executable :=
  ⟨_, names, _, _, _, .refl _, rfl, laid_flatten _, List.filter_eq_self.mpr (by simp)⟩

/-! ### Identifiers of mutators -/

theorem getIdentifier_of_mem {entry : Text × MutatorKind} (mem : entry ∈ MUTATIONS_MAP) :
    getIdentifier entry.2 = entry.1 := by
  have each : ∀ entry ∈ MUTATIONS_MAP, getIdentifier entry.2 = entry.1 := by decide +kernel
  exact each entry mem

theorem identifier_isChunk {entry : Text × MutatorKind} (mem : entry ∈ MUTATIONS_MAP) :
    entry.1 ≠ [] ∧ ':' ∉ entry.1 ∧ '\x00' ∉ entry.1 := by
  have each : ∀ entry ∈ MUTATIONS_MAP, entry.1 ≠ [] ∧ ':' ∉ entry.1 ∧ '\x00' ∉ entry.1 := by decide +kernel
  exact each entry mem

theorem kind_of_identifier {entry entry' : Text × MutatorKind} (mem : entry ∈ MUTATIONS_MAP)
    (mem' : entry' ∈ MUTATIONS_MAP) (same : entry.1 = entry'.1) : entry.2 = entry'.2 := by
  have apart : (MUTATIONS_MAP.map Prod.fst).Nodup := by decide +kernel
  exact congrArg Prod.snd (List.inj_on_of_nodup_map apart mem mem' same)

theorem Recorded.isChunk (recorded : Recorded point) :
    point.identifier ≠ [] ∧ ':' ∉ point.identifier ∧ '\x00' ∉ point.identifier := by
  obtain ⟨entry, mem, kind⟩ := recorded.mapped
  rw [recorded.identifier, ← kind, getIdentifier_of_mem mem]
  exact identifier_isChunk mem

/-! ### Records through the section -/

theorem record_eq (point : ASTMutationPoint μ) : point.mutationBinaryRecord = joinChunks ':' point.parts := by
  have one : ":1".toList = ':' :: toText 1 := by decide
  unfold ASTMutationPoint.mutationBinaryRecord ASTMutationPoint.mutationIdentifier ASTMutationPoint.parts
  rw [one]
  simp [joinChunks]

theorem Recorded.parts_isChunk (recorded : Recorded point) : ∀ part ∈ point.parts, IsChunk ':' part := by
  have numeral (n : Int32) : IsChunk ':' (toText n) :=
    ⟨toText_ne_nil n, toText_free (by decide) (by decide) n⟩
  obtain ⟨nonempty, free, -⟩ := recorded.isChunk
  intro part mem
  unfold ASTMutationPoint.parts at mem
  simp only [List.mem_cons, List.not_mem_nil, or_false] at mem
  rcases mem with rfl | rfl | rfl | rfl | rfl | rfl | rfl
  · exact ⟨nonempty, free⟩
  · exact ⟨recorded.somewhere, recorded.path.1⟩
  all_goals exact numeral _

theorem Recorded.record_isChunk (recorded : Recorded point) : IsChunk '\x00' point.mutationBinaryRecord := by
  have numeral (n : Int32) : '\x00' ∉ toText n := toText_free (by decide) (by decide) n
  obtain ⟨nonempty, -, free⟩ := recorded.isChunk
  constructor
  · unfold ASTMutationPoint.mutationBinaryRecord ASTMutationPoint.mutationIdentifier
    simp [nonempty]
  · rw [record_eq]
    apply joinChunks_free (by decide)
    unfold ASTMutationPoint.parts
    simp [free, recorded.path.2, numeral]

theorem decodeMutant_record (recorded : Recorded point) :
    decodeMutant point.mutationBinaryRecord = .ok point.mutant := by
  have chunks : splitChunks ':' point.mutationBinaryRecord = point.parts := by
    rw [record_eq, splitChunks_joinChunks recorded.parts_isChunk]
  unfold decodeMutant
  rw [chunks]
  simp [ASTMutationPoint.parts, orCrash, stoi_toText, bind, Except.bind, pure, Except.pure,
    ASTMutationPoint.mutant, ASTMutationPoint.mutationIdentifier]

theorem position_of_identifier (recorded : Recorded point) (recorded' : Recorded point')
    (same : point.mutationIdentifier = point'.mutationIdentifier) : point.position = point'.position := by
  have numeral (n : Int32) : ':' ∉ toText n := toText_free (by decide) (by decide) n
  unfold ASTMutationPoint.mutationIdentifier at same
  simp only [List.append_assoc, List.cons_append] at same
  rw [split_first recorded.isChunk.2.1 recorded'.isChunk.2.1, split_first recorded.path.1 recorded'.path.1,
    split_first (numeral _) (numeral _), toText_inj, toText_inj] at same
  obtain ⟨mutator, -, line, column⟩ := same
  obtain ⟨entry, mem, kind⟩ := recorded.mapped
  obtain ⟨entry', mem', kind'⟩ := recorded'.mapped
  rw [recorded.identifier, recorded'.identifier, ← kind, ← kind', getIdentifier_of_mem mem,
    getIdentifier_of_mem mem'] at mutator
  have mutators := kind_of_identifier mem mem' mutator
  unfold ASTMutationPoint.position
  rw [← kind, ← kind', mutators, line, column]

theorem Links.extract {points : List (ASTMutationPoint μ)} {objects : List Instrumented}
    {executable : Executable}
    (links : Links objects executable) (records : objects.flatMap Instrumented.records =
      points.map ASTMutationPoint.recordDecl)
    (each : ∀ point ∈ points, Recorded point ∧ HasRoom point) :
    ∃ order : List (ASTMutationPoint μ), order.Perm points ∧
    extractMutants executable = .ok (order.map ASTMutationPoint.mutant) := by
  obtain ⟨order, sections, content, shuffled, rfl, laid, only⟩ := links.laid
  rw [records] at shuffled
  obtain ⟨order, moved, rfl⟩ := exists_map_perm shuffled
  have known : ∀ point ∈ order, Recorded point ∧ HasRoom point :=
    fun point mem => each point (moved.mem_iff.mp mem)
  refine ⟨order, moved, ?_⟩
  have emitted : (order.map ASTMutationPoint.recordDecl).map RecordDecl.emitted =
      (order.map ASTMutationPoint.mutationBinaryRecord).map (· ++ ['\x00']) := by
    rw [List.map_map, List.map_map]
    apply List.map_congr_left
    intro point mem
    exact emitted_of_room (known point mem).2
  rw [emitted] at laid
  have carried : Carries (order.map ASTMutationPoint.mutationBinaryRecord) (.objectFile sections) :=
    ⟨sections, content, rfl, laid.padded, only⟩
  rw [extractMutants_carried carried, List.mapM_map]
  · exact mapM_ok fun point mem => decodeMutant_record (known point mem).1
  · intro record mem
    obtain ⟨point, isIn, rfl⟩ := List.mem_map.mp mem
    exact (known point isIn).1.record_isChunk

end

end Mull.Frontend
