import Mathlib.Data.Char
import Mathlib.Data.List.Lex
import Mathlib.Order.Lattice
import Mull.Base.KeyedSort
import Mull.Reporters.IDEReporter

/-! `MutationTestingElementsReporter`: the mutants under the files they are in, as JSON. -/

namespace Mull.Reporters
open Base Toolchain Runner

namespace MutationTestingElementsReporter
open SourceManager

structure MutantEntry where
  id : Text
  mutatorName : Text
  replacement : Text
  start : Int32 × Int32
  stop : Int32 × Int32
  status : Text
deriving DecidableEq

structure FileEntry where
  language : Text
  source : Text
  mutants : List MutantEntry
deriving DecidableEq

/-- The JSON document; the order of an object's members is that of their names. -/
structure Document where
  mutationScore : Nat
  thresholds : Nat × Nat
  files : List (Text × FileEntry)
  schemaVersion : Text

structure PointerSets where
  killed : List Nat := []
  notCovered : List Nat := []

def insertResult (sets : PointerSets) (mutationResult : MutationResult) : PointerSets :=
  if mutantNotCovered mutationResult.result.status then
    { sets with notCovered := sets.notCovered.insert mutationResult.mutant }
  else if !mutantSurvived mutationResult.result.status then
    { sets with killed := sets.killed.insert mutationResult.mutant }
  else sets

def fileOf {β : Type} (pair : Mutant × β) : Text := pair.1.sourceLocation.filePath

section
variable (files : Files) (memory : Nat → Nat → Char)

/-- The mutants of each file; every mutant's column has to be on its line. -/
def mutationPointsPerFile : List (Mutant × Nat) → List (Text × List (Mutant × Nat)) → SourceManager →
    Except Abort (List (Text × List (Mutant × Nat)))
  | [], perFile, _ => pure perFile
  | (mutant, i) :: rest, perFile, manager => do
    let (line, manager) ← (getLine files (memory i) mutant.sourceLocation manager).mapError .source
    if ¬ toSize mutant.sourceLocation.column < line.length then
      throw (.assertion "sourceLocation.column < sourceCodeLine.size()")
    mutationPointsPerFile rest (pushBack fileOf perFile (mutant, i)) manager

def statusText (sets : PointerSets) (i : Nat) : Text :=
  if i ∈ sets.killed then "Killed".toList else if i ∈ sets.notCovered then "NoCoverage".toList
    else "Survived".toList

def mutantEntry (mutant : Mutant) (mutator : Mutator) (status : Text) : MutantEntry where
  id := mutant.mutatorIdentifier
  mutatorName := mutator.getDiagnostics
  replacement := mutator.getReplacement
  start := (mutant.sourceLocation.line, mutant.sourceLocation.column)
  stop := (mutant.endLocation.line, mutant.endLocation.column)
  status := status

def mutantsEntries (sets : PointerSets) : List (Mutant × Nat) → MutatorsFactory →
    Except Abort (List MutantEntry × MutatorsFactory)
  | [], factory => pure ([], factory)
  | (mutant, i) :: rest, factory => do
    let (mutator, factory) := factory.getMutator mutant.mutatorIdentifier
    let some mutator := mutator | throw .nullMutator
    let (later, factory) ← mutantsEntries sets rest factory
    pure (mutantEntry mutant mutator (statusText sets i) :: later, factory)

def fileEntries (sets : PointerSets) : List (Text × List (Mutant × Nat)) → MutatorsFactory →
    Except Abort (List (Text × FileEntry))
  | [], _ => pure []
  | (path, mutants) :: rest, factory => do
    let (entries, factory) ← mutantsEntries sets mutants factory
    let later ← fileEntries sets rest factory
    pure ((path, ⟨"cpp".toList, (files path).getD [], entries⟩) :: later)

def createFiles (mutants : List Mutant) (sets : PointerSets) : Except Abort (List (Text × FileEntry)) := do
  let perFile ← mutationPointsPerFile files memory mutants.zipIdx [] .new
  fileEntries files sets (sortBy (fun file other => file.1 < other.1) perFile) MutatorsFactory.new.init

def reportResults (jsonPath : Text) (result : Result) : Except Abort (List Output × Option Document) := do
  if result.mutants.isEmpty then return ([.info noMutants], none)
  let sets := result.mutationResults.foldl insertResult {}
  let files ← createFiles files memory result.mutants sets
  pure ([.info ("Mutation Testing Elements reporter: generating report to ".toList ++ jsonPath)],
    some ⟨score sets.killed.length result.mutants.length, (80, 60), files, "1.1.1".toList⟩)

end

/-! ### What is written -/

def verdictText : Verdict → Text
  | .killed => "Killed".toList
  | .survived => "Survived".toList
  | .notCovered => "NoCoverage".toList

def entryOf (pair : Mutant × Verdict) : Option MutantEntry :=
  (mutatorOf pair.1.mutatorIdentifier).map fun mutator => mutantEntry pair.1 mutator (verdictText pair.2)

def filesOf (files : Files) (judged : List (Mutant × Verdict)) : List (Text × FileEntry) :=
  (sortBy (fun file other => file.1 < other.1) (groups fileOf judged)).map
    fun file => (file.1, ⟨"cpp".toList, (files file.1).getD [], file.2.filterMap entryOf⟩)

def verdictAt (result : Result) (i : Nat) : Verdict :=
  ((result.mutationResults[i]?).map fun mutationResult => verdictOf mutationResult.result.status).getD
    .survived

def pointersOf (mutationResults : List MutationResult) (verdict : Verdict) : List Nat :=
  (mutationResults.filter fun r => verdictOf r.result.status = verdict).map MutationResult.mutant

theorem foldl_insertResult {mutationResults : List MutationResult} {sets : PointerSets}
    (distinct : (mutationResults.map MutationResult.mutant).Nodup)
    (fresh : ∀ i ∈ mutationResults.map MutationResult.mutant, i ∉ sets.killed ∧ i ∉ sets.notCovered) :
    mutationResults.foldl insertResult sets = ⟨(pointersOf mutationResults .killed).reverse ++ sets.killed,
      (pointersOf mutationResults .notCovered).reverse ++ sets.notCovered⟩ := by
  unfold pointersOf
  induction mutationResults generalizing sets with
  | nil => rfl
  | cons first rest ih =>
    rw [List.map_cons, List.nodup_cons] at distinct
    obtain ⟨new_killed, new_notCovered⟩ := fresh first.mutant List.mem_cons_self
    have older (i : Nat) (mem : i ∈ rest.map MutationResult.mutant) : i ≠ first.mutant := by
      intro same
      exact distinct.1 (same ▸ mem)
    have fresh' (i : Nat) (mem : i ∈ rest.map MutationResult.mutant) := fresh i (List.mem_cons_of_mem _ mem)
    rw [List.foldl_cons]
    unfold insertResult verdictOf at *
    by_cases survived : mutantSurvived first.result.status = true
    · have other : mutantNotCovered first.result.status = false := by
        unfold mutantSurvived at survived
        unfold mutantNotCovered
        rw [of_decide_eq_true survived]
        rfl
      rw [if_neg (by rw [other]; exact Bool.false_ne_true),
        if_neg (by rw [survived]; exact Bool.false_ne_true), ih distinct.2 fresh']
      simp [survived]
    · by_cases notCovered : mutantNotCovered first.result.status = true
      · rw [if_pos notCovered, List.insert_of_not_mem new_notCovered, ih distinct.2]
        · simp [survived, notCovered]
        · intro i mem
          obtain ⟨not_killed, not_covered⟩ := fresh' i mem
          exact ⟨not_killed, fun inside => (List.mem_cons.mp inside).elim (older i mem) not_covered⟩
      · rw [if_neg notCovered, if_pos (by simpa using survived),
          List.insert_of_not_mem new_killed, ih distinct.2]
        · simp [survived, notCovered]
        · intro i mem
          obtain ⟨not_killed, not_covered⟩ := fresh' i mem
          exact ⟨fun inside => (List.mem_cons.mp inside).elim (older i mem) not_killed, not_covered⟩

section
variable {files : Files} {result : Result}

theorem pointer_at (complete : result.Complete) {i : Nat} {mutationResult : MutationResult}
    (here : result.mutationResults[i]? = some mutationResult) : mutationResult.mutant = i := by
  have at_i := congrArg (fun xs : List Nat => xs[i]?) complete
  have inside := (List.getElem?_eq_some_iff.mp here).1
  rw [List.getElem?_map, here, Option.map_some, List.getElem?_range (complete.length ▸ inside)] at at_i
  exact Option.some.inj at_i

theorem judged_eq (complete : result.Complete) :
    result.judged = result.mutants.zipIdx.map fun pair => (pair.1, verdictAt result pair.2) := by
  refine List.ext_getElem? fun i => ?_
  have length := complete.length
  unfold Result.judged verdictAt
  rw [List.getElem?_map, List.getElem?_zipIdx, Nat.zero_add]
  cases here : result.mutants[i]? with
  | none =>
    refine List.getElem?_eq_none ?_
    rw [List.length_zip]
    exact (Nat.min_le_left _ _).trans (List.getElem?_eq_none_iff.mp here)
  | some mutant =>
    have inside := (List.getElem?_eq_some_iff.mp here).1
    have found := List.getElem?_eq_getElem (length.symm ▸ inside)
    refine List.getElem?_zip_eq_some.mpr ⟨here, ?_⟩
    rw [List.getElem?_map]
    dsimp only
    rw [found]
    rfl

theorem mem_pointersOf_iff (complete : result.Complete) {i : Nat} (inside : i < result.mutants.length)
    {verdict : Verdict} :
    i ∈ pointersOf result.mutationResults verdict ↔ verdictAt result i = verdict := by
  have found := List.getElem?_eq_getElem (complete.length.symm ▸ inside)
  have own := pointer_at complete found
  unfold pointersOf verdictAt
  rw [found]
  constructor
  · intro mem
    obtain ⟨mutationResult, filtered, same⟩ := List.mem_map.mp mem
    obtain ⟨listed, said⟩ := List.mem_filter.mp filtered
    obtain ⟨j, at_j⟩ := List.mem_iff_getElem?.mp listed
    obtain rfl : j = i := (pointer_at complete at_j).symm.trans same
    obtain rfl := Option.some.inj (found.symm.trans at_j)
    exact of_decide_eq_true said
  · intro said
    exact List.mem_map.mpr ⟨_, List.mem_filter.mpr ⟨List.mem_of_getElem? found, decide_eq_true said⟩, own⟩

theorem statusText_verdict (complete : result.Complete) {i : Nat} (inside : i < result.mutants.length) :
    statusText (result.mutationResults.foldl insertResult {}) i = verdictText (verdictAt result i) := by
  have distinct : (result.mutationResults.map MutationResult.mutant).Nodup := by
    rw [complete]
    exact List.nodup_range
  rw [foldl_insertResult distinct (fun _ _ => ⟨List.not_mem_nil, List.not_mem_nil⟩)]
  unfold statusText
  simp only [List.append_nil, List.mem_reverse, mem_pointersOf_iff complete inside]
  cases verdictAt result i <;> rfl

theorem killed_length (complete : result.Complete) :
    (result.mutationResults.foldl insertResult {}).killed.length = (result.withVerdict .killed).length := by
  have distinct : (result.mutationResults.map MutationResult.mutant).Nodup := by
    rw [complete]
    exact List.nodup_range
  rw [foldl_insertResult distinct (fun _ _ => ⟨List.not_mem_nil, List.not_mem_nil⟩), List.append_nil,
    List.length_reverse]
  exact (IDEReporter.group_related complete .killed).length_eq

theorem mutationPointsPerFile_eq {memory : Nat → Nat → Char} {pairs : List (Mutant × Nat)}
    (printable : ∀ pair ∈ pairs, IDEReporter.Printable files pair.1)
    {perFile : List (Text × List (Mutant × Nat))}
    {manager : SourceManager} (cached : Cached files manager) :
      mutationPointsPerFile files memory pairs perFile manager =
      .ok (pairs.foldl (pushBack fileOf) perFile) := by
  induction pairs generalizing perFile manager with
  | nil => rfl
  | cons pair rest ih =>
    obtain ⟨-, content, i, column, text, next, exists_, readable⟩ := printable pair List.mem_cons_self
    obtain ⟨after, cached, read⟩ := readable.getLine_own cached exists_ (memory pair.2)
    unfold mutationPointsPerFile
    rw [read, toSize_of readable.position]
    simp only [bind, Except.bind, Except.mapError]
    rw [if_neg (not_not_intro readable.inner)]
    exact ih (fun other mem => printable other (List.mem_cons_of_mem _ mem)) cached

theorem mutantsEntries_eq {sets : PointerSets} {verdict : Nat → Verdict} {pairs : List (Mutant × Nat)}
    (printable : ∀ pair ∈ pairs, IDEReporter.Printable files pair.1)
    (said : ∀ pair ∈ pairs, statusText sets pair.2 = verdictText (verdict pair.2)) :
    mutantsEntries sets pairs MutatorsFactory.new.init =
      .ok ((pairs.map fun pair => (pair.1, verdict pair.2)).filterMap entryOf, MutatorsFactory.new.init) := by
  induction pairs with
  | nil => rfl
  | cons pair rest ih =>
    obtain ⟨⟨mutator, identifier⟩, -⟩ := printable pair List.mem_cons_self
    have found : MutatorsFactory.new.init.getMutator pair.1.mutatorIdentifier =
        (some mutator, MutatorsFactory.new.init) := by
      unfold MutatorsFactory.getMutator
      rw [identifier, MutatorsFactory.init_known]
    have entry : entryOf (pair.1, verdict pair.2) =
        some (mutantEntry pair.1 mutator (verdictText (verdict pair.2))) := by
      unfold entryOf
      rw [identifier, mutatorOf_known]
      rfl
    unfold mutantsEntries
    rw [found]
    simp only [bind, Except.bind]
    rw [ih (fun other mem => printable other (List.mem_cons_of_mem _ mem))
      (fun other mem => said other (List.mem_cons_of_mem _ mem)), List.map_cons, List.filterMap_cons, entry,
      said pair List.mem_cons_self]
    rfl

theorem fileEntries_eq {sets : PointerSets} {verdict : Nat → Verdict}
    {perFile : List (Text × List (Mutant × Nat))}
    (printable : ∀ file ∈ perFile, ∀ pair ∈ file.2, IDEReporter.Printable files pair.1)
    (said : ∀ file ∈ perFile, ∀ pair ∈ file.2, statusText sets pair.2 = verdictText (verdict pair.2)) :
    fileEntries files sets perFile MutatorsFactory.new.init = .ok (perFile.map fun file => (file.1,
      ⟨"cpp".toList, (files file.1).getD [], (file.2.map fun pair => (pair.1, verdict pair.2)).filterMap
        entryOf⟩)) := by
  induction perFile with
  | nil => rfl
  | cons file rest ih =>
    unfold fileEntries
    rw [mutantsEntries_eq (printable file List.mem_cons_self) (said file List.mem_cons_self)]
    simp only [bind, Except.bind]
    rw [ih (fun other mem => printable other (List.mem_cons_of_mem _ mem))
      (fun other mem => said other (List.mem_cons_of_mem _ mem))]
    rfl

theorem createFiles_eq (complete : result.Complete)
    (printable : ∀ mutant ∈ result.mutants, IDEReporter.Printable files mutant) (memory : Nat → Nat → Char) :
    createFiles files memory result.mutants (result.mutationResults.foldl insertResult {}) =
      .ok (filesOf files result.judged) := by
  have listed {pair : Mutant × Nat} (mem : pair ∈ result.mutants.zipIdx) :
      pair.1 ∈ result.mutants ∧ pair.2 < result.mutants.length := by
    have here := List.mem_zipIdx_iff_getElem?.mp mem
    exact ⟨List.mem_of_getElem? here, (List.getElem?_eq_some_iff.mp here).1⟩
  have collected : mutationPointsPerFile files memory result.mutants.zipIdx [] new =
      .ok (groups fileOf result.mutants.zipIdx) :=
    mutationPointsPerFile_eq (fun pair mem => printable pair.1 (listed mem).1) (new_cached files)
  have inside : ∀ file ∈ sortBy (fun file other => decide (file.1 < other.1))
    (groups fileOf result.mutants.zipIdx),
      ∀ pair ∈ file.2, pair ∈ result.mutants.zipIdx := by
    intro file mem pair mem_pair
    rw [(groups_grouped _).group_eq file ((sortBy_perm _ _).mem_iff.mp mem)] at mem_pair
    exact (List.mem_filter.mp mem_pair).1
  have keys (pair : Mutant × Nat) : fileOf (pair.1, verdictAt result pair.2) = fileOf pair := rfl
  unfold createFiles
  rw [collected]
  simp only [bind, Except.bind]
  refine (fileEntries_eq (fun file mem pair mem_pair =>
    printable pair.1 (listed (inside file mem pair mem_pair)).1)
    fun file mem pair mem_pair => statusText_verdict complete
      (listed (inside file mem pair mem_pair)).2).trans ?_
  unfold filesOf
  rw [judged_eq complete, groups_map keys, sortBy_map (fun _ _ => rfl), List.map_map]
  rfl

def document (files : Files) (result : Result) : Document where
  mutationScore := score (result.withVerdict .killed).length result.mutants.length
  thresholds := (80, 60)
  files := filesOf files result.judged
  schemaVersion := "1.1.1".toList

theorem reportResults_document (complete : result.Complete) (some_mutant : result.mutants ≠ [])
    (printable : ∀ mutant ∈ result.mutants, IDEReporter.Printable files mutant) (memory : Nat → Nat → Char)
    (jsonPath : Text) : reportResults files memory jsonPath result =
      .ok ([.info ("Mutation Testing Elements reporter: generating report to ".toList ++ jsonPath)],
        some (document files result)) := by
  unfold reportResults
  rw [if_neg (by simpa using some_mutant)]
  dsimp only
  rw [createFiles_eq complete printable, killed_length complete]
  rfl

end

section
variable {files : Files} {judged : List (Mutant × Verdict)}

theorem filesOf_sorted : ((filesOf files judged).map Prod.fst).Pairwise (· < ·) := by
  have sorted : (sortBy (fun file other => decide (file.1 < other.1)) (groups fileOf judged)).Pairwise
      fun file other => decide (file.1 < other.1) = true :=
    sortBy_strict (fun _ _ => decide_eq_true_iff) (groups_grouped judged).keys_nodup
  unfold filesOf
  rw [List.map_map]
  exact List.pairwise_map.mpr (sorted.imp of_decide_eq_true)

theorem filterMap_known {pairs : List (Mutant × Verdict)}
    (known : ∀ pair ∈ pairs, (entryOf pair).isSome = true) :
    (pairs.filterMap entryOf).map some = pairs.map entryOf := by
  induction pairs with
  | nil => rfl
  | cons pair rest ih =>
    obtain ⟨entry, found⟩ := Option.isSome_iff_exists.mp (known pair List.mem_cons_self)
    rw [List.filterMap_cons, found, List.map_cons, List.map_cons, found,
      ih fun other mem => known other (List.mem_cons_of_mem _ mem)]

theorem mem_filesOf (known : ∀ pair ∈ judged, (entryOf pair).isSome = true) {file : Text × FileEntry}
    (mem : file ∈ filesOf files judged) :
    file.2.mutants.map some = (judged.filter fun pair => fileOf pair = file.1).map entryOf := by
  obtain ⟨group, listed, rfl⟩ := List.mem_map.mp mem
  have own := (groups_grouped judged).group_eq group ((sortBy_perm _ _).mem_iff.mp listed)
  dsimp only
  rw [own]
  exact filterMap_known fun pair mem => known pair (List.mem_filter.mp mem).1

theorem filesOf_perm (known : ∀ pair ∈ judged, (entryOf pair).isSome = true) :
    ((filesOf files judged).flatMap fun file => file.2.mutants.map some).Perm (judged.map entryOf) := by
  have sorted := sortBy_perm (fun file other : Text × List (Mutant × Verdict) => decide (file.1 < other.1))
    (groups fileOf judged)
  have all := ((groups_grouped judged).perm sorted).flatMap_perm
  have rows : ((filesOf files judged).flatMap fun file => file.2.mutants.map some) =
      ((sortBy (fun file other => decide (file.1 < other.1)) (groups fileOf judged)).flatMap Prod.snd).map
        entryOf := by
    unfold filesOf
    rw [List.flatMap_map, List.map_flatMap]
    refine List.flatMap_congr fun group mem => filterMap_known fun pair inside => known pair ?_
    exact all.mem_iff.mp (List.mem_flatMap.mpr ⟨group, mem, inside⟩)
  rw [rows]
  exact all.map entryOf

end

end MutationTestingElementsReporter
end Mull.Reporters
