import Mathlib.Data.Char
import Mathlib.Data.List.Lex
import Mathlib.Data.Prod.Lex
import Mull.Base.KeyedSort
import Mull.Driver.Deduplication

/-! The reported mutants depend on nothing but the points: not on their order and not on that of the hash map. -/

namespace Mull
open Base

/-- File, line, column and mutator, in the order in which mutants are compared. -/
abbrev Key := Text ×ₗ ℤ ×ₗ ℤ ×ₗ Text

def Mutant.key (mutant : Mutant) : Key :=
  toLex (mutant.sourceLocation.filePath, toLex (mutant.sourceLocation.line.toInt,
    toLex (mutant.sourceLocation.column.toInt, mutant.mutatorIdentifier)))

def MutationPoint.key (point : MutationPoint) : Key :=
  toLex (point.sourceLocation.filePath, toLex (point.sourceLocation.line.toInt,
    toLex (point.sourceLocation.column.toInt, point.mutator.getUniqueIdentifier)))

theorem mutantComparator_iff (lhs rhs : Mutant) : MutantComparator lhs rhs = true ↔ lhs.key < rhs.key := by
  have line (a b : Int32) : a.toInt = b.toInt ↔ a = b := Int32.toInt_inj
  unfold MutantComparator Mutant.key
  simp only [Prod.Lex.toLex_lt_toLex, Bool.or_eq_true, Bool.and_eq_true, decide_eq_true_eq, beq_iff_eq,
    Int32.lt_iff_toInt_lt, line]

theorem MutationPoint.getUserIdentifier_inj {point point' : MutationPoint} :
    point.getUserIdentifier = point'.getUserIdentifier ↔ point.key = point'.key := by
  have numeral (n : Int32) : ':' ∉ toText n := toText_free (by decide) (by decide) n
  have mutator (m : Mutator) : ':' ∉ m.getUniqueIdentifier := m.getUniqueIdentifier_free rfl (by decide)
  have line (a b : Int32) : a.toInt = b.toInt ↔ a = b := Int32.toInt_inj
  unfold getUserIdentifier key
  simp only [List.append_assoc, List.cons_append]
  rw [split_first (mutator _) (mutator _)]
  simp only [← List.cons_append, ← List.append_assoc]
  rw [split_last (numeral _) (numeral _), split_last (numeral _) (numeral _), toText_inj, toText_inj]
  simp only [toLex_inj, Prod.mk.injEq, line]
  constructor
  · rintro ⟨mutator, ⟨path, line⟩, column⟩
    exact ⟨path, line, column, mutator⟩
  · rintro ⟨path, line, column, mutator⟩
    exact ⟨mutator, ⟨path, line⟩, column⟩

namespace Driver

structure Entry where
  identifier : Text
  mutatorIdentifier : Text
  filePath : Text
  line : Int32
  column : Int32
  covered : Bool
deriving DecidableEq

def entry (mutant : Mutant) : Entry where
  identifier := mutant.identifier
  mutatorIdentifier := mutant.mutatorIdentifier
  filePath := mutant.sourceLocation.filePath
  line := mutant.sourceLocation.line
  column := mutant.sourceLocation.column
  covered := mutant.covered

def Entry.key (entry : Entry) : Key :=
  toLex (entry.filePath, toLex (entry.line.toInt, toLex (entry.column.toInt, entry.mutatorIdentifier)))

/-- The entry of the points that share an identifier with this one. -/
def entryOf (points : List MutationPoint) (point : MutationPoint) : Entry where
  identifier := point.getUserIdentifier
  mutatorIdentifier := point.mutator.getUniqueIdentifier
  filePath := point.sourceLocation.filePath
  line := point.sourceLocation.line
  column := point.sourceLocation.column
  covered := points.any fun other => other.getUserIdentifier = point.getUserIdentifier && other.covered

section
variable {points : List MutationPoint} {iteration : List (Text × List MutationPoint)}

theorem entry_reportMutant (iterated : iteration.Perm (mapping points)) {pair : Text × List MutationPoint}
    (mem : pair ∈ iteration) {point : MutationPoint} (inside : point ∈ pair.2) :
    (reportMutant pair.1 pair.2).map entry = some (entryOf points point) := by
  have group := (mapping_grouped iterated).group_eq pair mem
  have identified {q : MutationPoint} (mem : q ∈ pair.2) : q.getUserIdentifier = pair.1 := by
    rw [group] at mem
    exact of_decide_eq_true (List.mem_filter.mp mem).2
  have covered : pair.2.any MutationPoint.covered =
      points.any fun other => other.getUserIdentifier = point.getUserIdentifier && other.covered := by
    rw [identified inside, group, List.any_filter]
  cases elements : pair.2 with
  | nil => simp [elements] at inside
  | cons anyPoint rest =>
    have front : anyPoint.key = point.key := by
      rw [← MutationPoint.getUserIdentifier_inj, identified inside,
        identified (by rw [elements]; exact List.mem_cons_self)]
    have line (a b : Int32) : a.toInt = b.toInt ↔ a = b := Int32.toInt_inj
    unfold MutationPoint.key at front
    simp only [toLex_inj, Prod.mk.injEq, line] at front
    obtain ⟨path, line, column, mutator⟩ := front
    rw [elements] at covered
    simp only [reportMutant, Option.map_some, entry, entryOf, path, line, column, mutator, covered,
      identified inside]

theorem mem_entries (iterated : iteration.Perm (mapping points)) {e : Entry} :
    e ∈ (deduplicate iteration).map entry ↔ ∃ point ∈ points, entryOf points point = e := by
  have grouped := mapping_grouped iterated
  rw [((deduplicate_perm iteration).map entry).mem_iff, List.map_filterMap, List.mem_filterMap]
  constructor
  · rintro ⟨pair, mem, reported⟩
    obtain ⟨point, mem_point, -, inside⟩ := grouped.nonempty mem
    rw [entry_reportMutant iterated mem inside] at reported
    exact ⟨point, mem_point, Option.some.inj reported⟩
  · rintro ⟨point, mem, rfl⟩
    obtain ⟨pair, listed, same⟩ := List.mem_map.mp
      ((grouped.mem_keys point.getUserIdentifier).mpr (List.mem_map_of_mem mem))
    refine ⟨pair, listed, entry_reportMutant iterated listed ?_⟩
    rw [grouped.group_eq pair listed]
    exact List.mem_filter.mpr ⟨mem, decide_eq_true same.symm⟩

theorem reported_identifiers (iterated : iteration.Perm (mapping points)) :
    (iteration.filterMap fun pair => reportMutant pair.1 pair.2).map Mutant.identifier =
      iteration.map Prod.fst := by
  have grouped := mapping_grouped iterated
  have each : ∀ pair ∈ iteration, (reportMutant pair.1 pair.2).map Mutant.identifier = some pair.1 := by
    intro pair mem
    obtain ⟨point, -, -, inside⟩ := grouped.nonempty mem
    cases elements : pair.2 with
    | nil => simp [elements] at inside
    | cons anyPoint rest => rfl
  rw [List.map_filterMap, List.filterMap_congr each, List.filterMap_eq_map']

theorem reported_keys (iterated : iteration.Perm (mapping points)) :
    ((iteration.filterMap fun pair => reportMutant pair.1 pair.2).map Mutant.key).Nodup := by
  have identifiers := (mapping_grouped iterated).keys_nodup
  rw [← reported_identifiers iterated] at identifiers
  have own {mutant : Mutant} (mem : mutant ∈ iteration.filterMap fun pair => reportMutant pair.1 pair.2) :
      ∃ point ∈ points, mutant.identifier = point.getUserIdentifier ∧ mutant.key = point.key := by
    have listed := (deduplicate_perm iteration).mem_iff.mpr mem
    obtain ⟨point, mem_point, same⟩ := (mem_entries iterated).mp (List.mem_map_of_mem listed)
    exact ⟨point, mem_point, (congrArg Entry.identifier same).symm, (congrArg Entry.key same).symm⟩
  refine List.pairwise_map.mpr
    ((List.pairwise_map.mp identifiers).imp_of_mem fun mem mem' apart same => apart ?_)
  obtain ⟨point, -, identifier, key⟩ := own mem
  obtain ⟨point', -, identifier', key'⟩ := own mem'
  rw [identifier, identifier', MutationPoint.getUserIdentifier_inj, ← key, ← key', same]

/-- One mutant for each mutator and position, covered if one of its points is, in strictly increasing order, and
the same whatever the order of the points and of the hash map. Only where it ends is not among the fields of an
entry: that is taken from the first of its points. -/
structure Canonical (points : List MutationPoint) (iteration : List (Text × List MutationPoint)) : Prop where
  identified : ∀ p ∈ points, ∀ q ∈ points, p.getUserIdentifier = q.getUserIdentifier ↔ p.key = q.key
  distinct : ((deduplicate iteration).map Mutant.key).Nodup
  complete : ∀ key, key ∈ (deduplicate iteration).map Mutant.key ↔ key ∈ points.map MutationPoint.key
  covered : ∀ mutant ∈ deduplicate iteration,
    mutant.covered = true ↔ ∃ point ∈ points, point.key = mutant.key ∧ point.covered = true
  increasing : (deduplicate iteration).Pairwise fun lhs rhs => lhs.key < rhs.key
  stable : ∀ points' iteration', points'.Perm points → iteration'.Perm (mapping points') →
    (deduplicate iteration').map entry = (deduplicate iteration).map entry

theorem deduplicate_canonical (iterated : iteration.Perm (mapping points)) : Canonical points iteration := by
  have keys (mutants : List Mutant) : (mutants.map entry).map Entry.key = mutants.map Mutant.key := by
    rw [List.map_map]
    rfl
  have sorted := sortBy_strict mutantComparator_iff (reported_keys iterated)
  refine ⟨fun _ _ _ _ => MutationPoint.getUserIdentifier_inj, ?_, fun key => ?_, fun mutant mem => ?_,
    sorted.imp fun less => (mutantComparator_iff _ _).mp less, fun points' iteration' perm iterated' => ?_⟩
  · exact ((deduplicate_perm iteration).map Mutant.key).nodup_iff.mpr (reported_keys iterated)
  · rw [← keys, List.mem_map, List.mem_map]
    constructor
    · rintro ⟨e, mem, rfl⟩
      obtain ⟨point, mem_point, rfl⟩ := (mem_entries iterated).mp mem
      exact ⟨point, mem_point, rfl⟩
    · rintro ⟨point, mem, rfl⟩
      exact ⟨entryOf points point, (mem_entries iterated).mpr ⟨point, mem, rfl⟩, rfl⟩
  · obtain ⟨point, mem_point, same⟩ := (mem_entries iterated).mp (List.mem_map_of_mem mem)
    have covered : mutant.covered = (entryOf points point).covered := (congrArg Entry.covered same).symm
    have key : mutant.key = point.key := (congrArg Entry.key same).symm
    rw [covered, key]
    simp only [entryOf, List.any_eq_true, Bool.and_eq_true, decide_eq_true_eq,
      MutationPoint.getUserIdentifier_inj]
  · have entryOf_eq (point : MutationPoint) : entryOf points' point = entryOf points point := by
      unfold entryOf
      rw [perm.any_eq]
    have keyed (mutant : Mutant) : (entry mutant).key = mutant.key := rfl
    have unsorted {ps : List MutationPoint} {it : List (Text × List MutationPoint)}
      (it_perm : it.Perm (mapping ps)) :
        ((it.filterMap fun pair => reportMutant pair.1 pair.2).map entry).Nodup := by
      have distinct := reported_keys it_perm
      rw [← keys] at distinct
      exact distinct.of_map
    refine sortBy_canonical mutantComparator_iff keyed ?_ (reported_keys iterated')
    refine (List.perm_ext_iff_of_nodup (unsorted iterated') (unsorted iterated)).mpr fun e => ?_
    rw [← ((deduplicate_perm iteration').map entry).mem_iff,
      ← ((deduplicate_perm iteration).map entry).mem_iff, mem_entries iterated', mem_entries iterated]
    simp only [perm.mem_iff, entryOf_eq]

end

/-- Points of two mutators at one place, one of them twice. -/
def samplePoints : List MutationPoint :=
  [(.addToSub, true), (.subToAdd, false), (.addToSub, false)].map fun (mutator, covered) =>
    { mutator := mutator, irMutator := none, address := ⟨0, 0, 0⟩, bitcode := 0, originalFunction := 0
      mutatedFunction := none, endLocation := .nullSourceLocation, covered := covered
      sourceLocation := ⟨"/src".toList, "a:b.c".toList, "/src".toList, "/src/a:b.c".toList, 3, 4⟩ }

theorem deduplicate_canonical_reversed : Canonical samplePoints (mapping samplePoints).reverse :=
  deduplicate_canonical (List.reverse_perm _)

end Driver

end Mull
