import Mathlib.Data.Char
import Mathlib.Logic.Function.Basic
import Mull.Base.GroupExpansion
import Mull.Mutators.Mutator

/-! `MutatorsFactory`: the mutators that names and groups of names stand for. -/

namespace Mull
open Base

namespace Mutator

def getDescription : Mutator → Text
  | .negateConditionMutator => "Negates conditionals !x to x and x to !x".toList
  | .scalarValueMutator => "Replaces zeros with 42, and non-zeros with 0".toList
  | .removeVoidCall => "Removes calls to a function returning void".toList
  | .replaceScalarCall => "Replaces call to a function with 42".toList
  | .numberAssignConst => "Replaces 'a = b' with 'a = 42'".toList
  | .numberInitConst => "Replaces 'T a = b' with 'T a = 42'".toList
  | .addAssignToSubAssign => "Replaces += with -=".toList
  | .subAssignToAddAssign => "Replaces -= with +=".toList
  | .mulAssignToDivAssign => "Replaces *= with /=".toList
  | .divAssignToMulAssign => "Replaces /= with *=".toList
  | .remAssignToDivAssign => "Replaces %= with /=".toList
  | .andAssignToOrAssign => "Replaces &= with |=".toList
  | .orAssignToAndAssign => "Replaces |= with &=".toList
  | .xorAssignToOrAssign => "Replaces ^= with |=".toList
  | .lShiftAssignToRShiftAssign => "Replaces <<= with >>=".toList
  | .rShiftAssignToLShiftAssign => "Replaces >>= with <<=".toList
  | .preIncToPreDec => "Replaces ++x with --x".toList
  | .postIncToPostDec => "Replaces x++ with x--".toList
  | .preDecToPreInc => "Replaces --x with ++x".toList
  | .postDecToPostInc => "Replaces x-- with x++".toList
  | .unaryMinusToNoop => "Replaces -x with x".toList
  | .addToSub => "Replaces + with -".toList
  | .subToAdd => "Replaces - with +".toList
  | .mulToDiv => "Replaces * with /".toList
  | .divToMul => "Replaces / with *".toList
  | .remToDiv => "Replaces % with /".toList
  | .bitwiseNotToNoop => "Replaces ~x with x".toList
  | .bitwiseAndToOr => "Replaces & with |".toList
  | .bitwiseOrToAnd => "Replaces | with &".toList
  | .xorToOr => "Replaces ^ with |".toList
  | .lShiftToRShift => "Replaces << with >>".toList
  | .rShiftToLShift => "Replaces << with >>".toList
  | .logicalAndToOr => "Replaces && with ||".toList
  | .logicalOrToAnd => "Replaces || with &&".toList
  | .removeNegation => "Replaces !a with a".toList
  | .equalToNotEqual => "Replaces == with !=".toList
  | .notEqualToEqual => "Replaces != with ==".toList
  | .lessOrEqualToGreaterThan => "Replaces <= with >".toList
  | .lessThanToGreaterOrEqual => "Replaces < with >=".toList
  | .greaterOrEqualToLessThan => "Replaces >= with <".toList
  | .greaterThanToLessOrEqual => "Replaces > with <=".toList
  | .lessOrEqualToLessThan => "Replaces <= with <".toList
  | .lessThanToLessOrEqual => "Replaces < with <=".toList
  | .greaterOrEqualToGreaterThan => "Replaces >= with >".toList
  | .greaterThanToGreaterOrEqual => "Replaces > with >=".toList

/-- The order in which `init` registers them. -/
def registered : List Mutator := [
  .negateConditionMutator, .scalarValueMutator, .removeVoidCall, .replaceScalarCall, .numberAssignConst,
  .numberInitConst, .addAssignToSubAssign, .subAssignToAddAssign, .mulAssignToDivAssign,
  .divAssignToMulAssign,
  .remAssignToDivAssign, .andAssignToOrAssign, .orAssignToAndAssign, .xorAssignToOrAssign,
  .lShiftAssignToRShiftAssign, .rShiftAssignToLShiftAssign, .preIncToPreDec, .postIncToPostDec,
  .preDecToPreInc, .postDecToPostInc, .unaryMinusToNoop, .addToSub, .subToAdd, .mulToDiv,
  .divToMul, .remToDiv,
  .bitwiseNotToNoop, .bitwiseAndToOr, .bitwiseOrToAnd, .xorToOr, .lShiftToRShift, .rShiftToLShift,
  .logicalAndToOr, .logicalOrToAnd, .removeNegation, .equalToNotEqual, .notEqualToEqual,
  .lessOrEqualToGreaterThan, .lessThanToGreaterOrEqual, .greaterOrEqualToLessThan, .greaterThanToLessOrEqual,
  .lessOrEqualToLessThan, .lessThanToLessOrEqual, .greaterOrEqualToGreaterThan, .greaterThanToGreaterOrEqual]

theorem mem_registered (mutator : Mutator) : mutator ∈ registered := by cases mutator <;> decide

end Mutator

inductive GroupName
  | experimental
  | allMutatorsGroup
  | cxxAssignment
  | cxxConstAssignment
  | cxxArithmeticAssignment
  | cxxBitwiseAssignment
  | cxxIncrement
  | cxxDecrement
  | cxxArithmetic
  | cxxBitwise
  | cxxLogical
  | cxxComparison
  | cxxBoundary
  | cxxCalls
  | cxxAll
  | cxxDefault
deriving DecidableEq

inductive GroupMember
  | group (name : GroupName)
  | mutator (mutator : Mutator)

namespace GroupName

def text : GroupName → Text
  | .experimental => "experimental".toList
  | .allMutatorsGroup => "all".toList
  | .cxxAssignment => "cxx_assignment".toList
  | .cxxConstAssignment => "cxx_const_assignment".toList
  | .cxxArithmeticAssignment => "cxx_arithmetic_assignment".toList
  | .cxxBitwiseAssignment => "cxx_bitwise_assignment".toList
  | .cxxIncrement => "cxx_increment".toList
  | .cxxDecrement => "cxx_decrement".toList
  | .cxxArithmetic => "cxx_arithmetic".toList
  | .cxxBitwise => "cxx_bitwise".toList
  | .cxxLogical => "cxx_logical".toList
  | .cxxComparison => "cxx_comparison".toList
  | .cxxBoundary => "cxx_boundary".toList
  | .cxxCalls => "cxx_calls".toList
  | .cxxAll => "cxx_all".toList
  | .cxxDefault => "cxx_default".toList

/-- `groupsMapping`, as the constructor fills it. -/
def members : GroupName → List GroupMember
  | .cxxCalls => [.mutator .removeVoidCall, .mutator .replaceScalarCall]
  | .cxxConstAssignment => [.mutator .numberAssignConst, .mutator .numberInitConst]
  | .cxxBitwiseAssignment => [.mutator .andAssignToOrAssign, .mutator .orAssignToAndAssign,
      .mutator .xorAssignToOrAssign, .mutator .lShiftAssignToRShiftAssign,
      .mutator .rShiftAssignToLShiftAssign]
  | .cxxArithmeticAssignment => [.mutator .addAssignToSubAssign, .mutator .subAssignToAddAssign,
      .mutator .mulAssignToDivAssign, .mutator .divAssignToMulAssign, .mutator .remAssignToDivAssign]
  | .cxxIncrement => [.mutator .preIncToPreDec, .mutator .postIncToPostDec]
  | .cxxDecrement => [.mutator .preDecToPreInc, .mutator .postDecToPostInc]
  | .cxxArithmetic => [.mutator .unaryMinusToNoop, .mutator .addToSub, .mutator .subToAdd, .mutator .mulToDiv,
      .mutator .divToMul, .mutator .remToDiv]
  | .cxxBitwise => [.mutator .bitwiseNotToNoop, .mutator .bitwiseAndToOr, .mutator .bitwiseOrToAnd,
      .mutator .xorToOr, .mutator .lShiftToRShift, .mutator .rShiftToLShift]
  | .cxxLogical => [.mutator .logicalAndToOr, .mutator .logicalOrToAnd, .mutator .removeNegation]
  | .cxxComparison =>
    [.mutator .equalToNotEqual, .mutator .notEqualToEqual, .mutator .lessOrEqualToGreaterThan,
      .mutator .lessThanToGreaterOrEqual, .mutator .greaterOrEqualToLessThan,
      .mutator .greaterThanToLessOrEqual]
  | .cxxBoundary => [.mutator .lessOrEqualToLessThan, .mutator .lessThanToLessOrEqual,
      .mutator .greaterOrEqualToGreaterThan, .mutator .greaterThanToGreaterOrEqual]
  | .cxxAssignment =>
    [.group .cxxBitwiseAssignment, .group .cxxArithmeticAssignment, .group .cxxConstAssignment]
  | .cxxAll => [.group .cxxAssignment, .group .cxxIncrement, .group .cxxDecrement, .group .cxxArithmetic,
      .group .cxxComparison, .group .cxxBoundary, .group .cxxBitwise, .group .cxxCalls]
  | .cxxDefault => [.group .cxxIncrement, .group .cxxArithmetic, .group .cxxComparison, .group .cxxBoundary]
  | .experimental => [.mutator .negateConditionMutator, .mutator .scalarValueMutator, .group .cxxLogical]
  | .allMutatorsGroup => [.group .cxxAll, .group .experimental]

def all : List GroupName := [
  .experimental, .allMutatorsGroup, .cxxAssignment, .cxxConstAssignment, .cxxArithmeticAssignment,
  .cxxBitwiseAssignment, .cxxIncrement, .cxxDecrement, .cxxArithmetic, .cxxBitwise,
  .cxxLogical, .cxxComparison, .cxxBoundary, .cxxCalls, .cxxAll, .cxxDefault]

theorem mem_all (name : GroupName) : name ∈ all := by cases name <;> decide

/-- How deeply groups are nested in the group. -/
def rank : GroupName → Nat
  | .allMutatorsGroup => 4
  | .cxxAll => 3
  | .cxxAssignment | .cxxDefault | .experimental => 2
  | _ => 1

end GroupName

namespace GroupMember

def text : GroupMember → Text
  | group name => name.text
  | mutator own => own.getUniqueIdentifier

def rank : GroupMember → Nat
  | group name => name.rank
  | mutator _ => 0

end GroupMember

theorem GroupName.rank_members (name : GroupName) : ∀ member ∈ name.members, member.rank < name.rank := by
  cases name <;> simp [members, rank, GroupMember.rank]

theorem names_distinct :
    (Mutator.registered.map Mutator.getUniqueIdentifier ++ GroupName.all.map GroupName.text).Nodup := by
  decide +kernel

theorem Mutator.getUniqueIdentifier_inj {mutator other : Mutator} :
    mutator.getUniqueIdentifier = other.getUniqueIdentifier ↔ mutator = other := by
  have distinct := (List.nodup_append.mp names_distinct).1
  exact ⟨fun same => List.inj_on_of_nodup_map distinct (mem_registered _) (mem_registered _) same, congrArg _⟩

theorem GroupName.text_inj {name other : GroupName} : name.text = other.text ↔ name = other := by
  have distinct := (List.nodup_append.mp names_distinct).2.1
  exact ⟨fun same => List.inj_on_of_nodup_map distinct (mem_all _) (mem_all _) same, congrArg _⟩

theorem Mutator.getUniqueIdentifier_ne_text (mutator : Mutator) (name : GroupName) :
    mutator.getUniqueIdentifier ≠ name.text :=
  (List.nodup_append.mp names_distinct).2.2 _ (List.mem_map_of_mem mutator.mem_registered) _
    (List.mem_map_of_mem name.mem_all)

/-- `groupsMapping.at(name)`, `none` where the name is no group. -/
def groupsMapping (name : Text) : Option (List Text) :=
  (GroupName.all.find? fun group => group.text = name).map fun group => group.members.map GroupMember.text

def Unknown (name : Text) : Prop :=
  groupsMapping name = none ∧ ∀ mutator : Mutator, mutator.getUniqueIdentifier ≠ name

theorem groupsMapping_text (group : GroupName) :
    groupsMapping group.text = some (group.members.map GroupMember.text) := by
  have found : (GroupName.all.find? fun other => other.text = group.text) = some group := by
    simp only [GroupName.text_inj]
    cases group <;> rfl
  rw [groupsMapping, found]
  rfl

theorem groupsMapping_eq_some {name : Text} {members : List Text}
    (grouped : groupsMapping name = some members) :
    ∃ group : GroupName, group.text = name ∧ members = group.members.map GroupMember.text := by
  obtain ⟨group, found, same⟩ := Option.map_eq_some_iff.mp grouped
  have named := List.find?_some found
  exact ⟨group, of_decide_eq_true named, same.symm⟩

theorem groupsMapping_getUniqueIdentifier (mutator : Mutator) :
    groupsMapping mutator.getUniqueIdentifier = none := by
  apply Option.eq_none_iff_forall_ne_some.mpr
  intro members grouped
  obtain ⟨group, same, -⟩ := groupsMapping_eq_some grouped
  exact mutator.getUniqueIdentifier_ne_text group same.symm

def nameRank (name : Text) : Nat :=
  ((GroupName.all.find? fun group => group.text = name).map GroupName.rank).getD 0

theorem nameRank_text (member : GroupMember) : nameRank member.text = member.rank := by
  cases member with
  | group name =>
    have found : (GroupName.all.find? fun other => other.text = name.text) = some name := by
      simp only [GroupName.text_inj]
      cases name <;> rfl
    rw [nameRank, GroupMember.text, found]
    rfl
  | mutator own =>
    have absent : (GroupName.all.find? fun group => group.text = own.getUniqueIdentifier) = none :=
      Option.map_eq_none_iff.mp (groupsMapping_getUniqueIdentifier own)
    rw [nameRank, GroupMember.text, absent]
    rfl

theorem groupsMapping_ranked : Ranked groupsMapping nameRank := by
  intro name members grouped
  obtain ⟨group, rfl, rfl⟩ := groupsMapping_eq_some grouped
  have own : nameRank group.text = group.rank := nameRank_text (.group group)
  rw [own]
  refine ⟨by cases group <;> decide, ?_⟩
  intro member mem
  obtain ⟨own, inside, rfl⟩ := List.mem_map.mp mem
  rw [nameRank_text]
  exact group.rank_members own inside

theorem nameRank_le (name : Text) : nameRank name < GroupName.all.length + 1 := by
  unfold nameRank
  cases GroupName.all.find? fun group => group.text = name with
  | none => decide
  | some group => cases group <;> decide

/-- A name stands for itself where it is no group, and for mutators where it is one. -/
theorem leaf_known {name leaf : Text} (stands : Leaf groupsMapping name leaf) :
    (leaf = name ∧ groupsMapping name = none) ∨ ∃ mutator : Mutator, mutator.getUniqueIdentifier = leaf := by
  induction stands with
  | single alone => exact .inl ⟨rfl, alone⟩
  | member grouped mem below ih =>
    rcases ih with ⟨rfl, alone⟩ | known
    · obtain ⟨group, rfl, rfl⟩ := groupsMapping_eq_some grouped
      obtain ⟨own, inside, rfl⟩ := List.mem_map.mp mem
      cases own with
      | group name =>
        rw [GroupMember.text, groupsMapping_text] at alone
        cases alone
      | mutator mutator => exact .inr ⟨mutator, rfl⟩
    · exact .inr known

/-- An entry may hold no mutator. -/
abbrev MutatorsMapping := Text → Option (Option Mutator)

structure MutatorsFactory where
  mutatorsMapping : MutatorsMapping

namespace MutatorsFactory

def new : MutatorsFactory := ⟨fun _ => none⟩

def addMutator (mapping : MutatorsMapping) (mutator : Mutator) : MutatorsMapping :=
  Function.update mapping mutator.getUniqueIdentifier (some (some mutator))

def init (factory : MutatorsFactory) : MutatorsFactory :=
  ⟨Mutator.registered.foldl addMutator factory.mutatorsMapping⟩

/-- `operator[]` adds an entry without a mutator for a key that is not there. -/
def getMutator (factory : MutatorsFactory) (mutatorId : Text) : Option Mutator × MutatorsFactory :=
  match factory.mutatorsMapping mutatorId with
  | some mutator => (mutator, factory)
  | none => (none, ⟨Function.update factory.mutatorsMapping mutatorId (some none)⟩)

def unknownMutator (name : Text) : Text := "Unknown mutator: ".toList ++ name

def noValidMutators : Text := "No valid mutators specified.".toList

structure Selection where
  mutators : List (Option Mutator)
  warnings : List Text
deriving DecidableEq

def moveOut (taken : Selection × MutatorsMapping) (group : Text) : Selection × MutatorsMapping :=
  let (selection, mapping) := taken
  match mapping group with
  | none => ({ selection with warnings := selection.warnings ++ [unknownMutator group] }, mapping)
  | some mutator =>
    ({ selection with mutators := selection.mutators ++ [mutator] }, Function.update mapping group none)

/-- An empty list stands for the default group. -/
def requested (groups : List Text) : List Text :=
  if groups.isEmpty then [GroupName.cxxDefault.text] else groups

/-- `none` if the groups do not end. -/
def mutators (factory : MutatorsFactory) (groups : List Text) : Option (Selection × MutatorsFactory) := do
  let factory := factory.init
  let expandedGroups ← expandGroups groupsMapping (GroupName.all.length + 1) (requested groups) .empty
  let (selection, mapping) := expandedGroups.elements.foldl moveOut (⟨[], []⟩, factory.mutatorsMapping)
  let warnings := if selection.mutators.isEmpty then selection.warnings ++
    [noValidMutators] else selection.warnings
  pure ({ selection with warnings }, ⟨mapping⟩)

def descriptionForGroup (groupMembers : List Text) : Text :=
  if groupMembers.isEmpty then "empty group?".toList else (groupMembers.intersperse ", ".toList).flatten

/-- `none` as well if a mutator is missing. -/
def commandLineOptions (factory : MutatorsFactory) :
    Option (List (Text × Text) × List Text × MutatorsFactory) := do
  let groups :=
    (GroupName.all.map fun group => (group.text, group.members.map GroupMember.text)).insertionSort
    fun group other => group.1 ≤ other.1
  let options := groups.map fun group => (group.1, descriptionForGroup group.2)
  let (selection, factory) ← factory.mutators [GroupName.allMutatorsGroup.text]
  let described ← selection.mutators.mapM fun mutator =>
    mutator.map fun mutator => (mutator.getUniqueIdentifier, mutator.getDescription)
  pure (options ++ described, selection.warnings, factory)

end MutatorsFactory

end Mull
