import Mathlib.Data.List.Induction
import Mull.Base.Delimited
import Mull.Driver.FunctionsUnderTest

/-! Which functions the coverage selects. -/

namespace Mull.Driver
open Base LLVM

/-! ### What the records leave behind -/

theorem splitName_cases (record : FunctionRecord) :
    (':' ∉ record.name ∧ splitName record = ([], record.name)) ∨
      ∃ scope name, ':' ∉ scope ∧ record.name = scope ++ ':' :: name ∧ splitName record = (scope, name) := by
  have parts := List.takeWhile_append_dropWhile (p := fun c => decide (c ≠ ':')) (l := record.name)
  have free : ':' ∉ record.name.takeWhile fun c => decide (c ≠ ':') := by
    intro mem
    simpa using List.mem_takeWhile_imp mem
  unfold splitName
  cases rest : record.name.dropWhile fun c => decide (c ≠ ':') with
  | nil =>
    rw [rest, List.append_nil] at parts
    rw [parts] at free
    exact .inl ⟨free, rfl⟩
  | cons c name =>
    have stop : c = ':' := by
      have first := List.head?_dropWhile_not (fun c => decide (c ≠ ':')) record.name
      rw [rest] at first
      simpa using first
    subst stop
    rw [rest] at parts
    exact .inr ⟨_, name, free, parts.symm, rfl⟩

theorem splitName_unscoped {record : FunctionRecord} {name : Text} :
    splitName record = ([], name) ↔ (record.name = name ∧ ':' ∉ name) ∨ record.name = ':' :: name := by
  rcases splitName_cases record with ⟨free, split⟩ | ⟨scope, rest, free, read, split⟩
  · rw [split, Prod.mk.injEq]
    constructor
    · rintro ⟨-, rfl⟩
      exact .inl ⟨rfl, free⟩
    · rintro (⟨same, -⟩ | colon)
      · exact ⟨rfl, same⟩
      · exact absurd (by simp [colon]) free
  · rw [split, read, Prod.mk.injEq]
    constructor
    · rintro ⟨rfl, rfl⟩
      exact .inr rfl
    · rintro (⟨rfl, without⟩ | same)
      · exact absurd (by simp) without
      · have empty : ':' ∉ ([] : Text) := List.not_mem_nil
        exact (split_first free empty).mp same

theorem splitName_scoped {record : FunctionRecord} {scope name : Text} (inFile : scope ≠ []) :
    splitName record = (scope, name) ↔ record.name = scope ++ ':' :: name ∧ ':' ∉ scope := by
  rcases splitName_cases record with ⟨free, split⟩ | ⟨scope', rest, free, read, split⟩
  · rw [split, Prod.mk.injEq]
    constructor
    · rintro ⟨empty, -⟩
      exact absurd empty.symm inFile
    · rintro ⟨same, -⟩
      exact absurd (by simp [same]) free
  · rw [split, read, Prod.mk.injEq]
    constructor
    · rintro ⟨rfl, rfl⟩
      exact ⟨rfl, free⟩
    · rintro ⟨same, free'⟩
      exact (split_first free free').mp same

def Counted (records : List FunctionRecord) (name : Text) : Prop :=
  ∃ record ∈ records, record.name = name ∧ 0 < record.executionCount

theorem mem_unscopedFunctions_recordName {names : CoveredNames} {record : FunctionRecord} {name : Text} :
    name ∈ (recordName names record).unscopedFunctions ↔
      name ∈ names.unscopedFunctions ∨ (0 < record.executionCount ∧ splitName record = ([], name)) := by
  rcases split : splitName record with ⟨scope, rest⟩
  unfold recordName
  rw [split]
  by_cases counted : record.executionCount = 0
  · simp [counted]
  · by_cases empty : scope = []
    · simp [counted, empty, Nat.pos_of_ne_zero counted, eq_comm]
    · simp [counted, empty]

theorem mem_scopedFunctions_recordName {names : CoveredNames} {record : FunctionRecord} {scope name : Text}
    (inFile : scope ≠ []) :
    (scope, name) ∈ (recordName names record).scopedFunctions ↔
      (scope, name) ∈ names.scopedFunctions ∨
      (0 < record.executionCount ∧ splitName record = (scope, name)) := by
  rcases split : splitName record with ⟨own, rest⟩
  unfold recordName
  rw [split]
  by_cases counted : record.executionCount = 0
  · simp [counted]
  · by_cases empty : own = []
    · simp [counted, empty, inFile.symm]
    · simp [counted, empty, Nat.pos_of_ne_zero counted, eq_comm]

theorem recordName_empty_scope {names : CoveredNames} {record : FunctionRecord}
    (none_ : ∀ name, ([], name) ∉ names.scopedFunctions) :
      ∀ name, ([], name) ∉ (recordName names record).scopedFunctions := by
  intro name
  rcases split : splitName record with ⟨own, rest⟩
  unfold recordName
  rw [split]
  by_cases counted : record.executionCount = 0
  · simpa [counted] using none_ name
  · by_cases empty : own = []
    · simpa [counted, empty] using none_ name
    · simpa [counted, empty, Ne.symm empty] using none_ name

theorem unscopedFunctions_iff (records : List FunctionRecord) (name : Text) :
    name ∈ (records.foldl recordName {}).unscopedFunctions ↔
      (Counted records name ∧ ':' ∉ name) ∨ Counted records (':' :: name) := by
  have read : name ∈ (records.foldl recordName {}).unscopedFunctions ↔
      ∃ record ∈ records, 0 < record.executionCount ∧ splitName record = ([], name) := by
    induction records using List.reverseRecOn with
    | nil => simp
    | append_singleton records record ih =>
      rw [List.foldl_append, List.foldl_cons, List.foldl_nil, mem_unscopedFunctions_recordName, ih]
      simp [or_and_right, exists_or]
  rw [read]
  simp only [splitName_unscoped, Counted]
  constructor
  · rintro ⟨record, mem, positive, ⟨same, free⟩ | same⟩
    · exact .inl ⟨⟨record, mem, same, positive⟩, free⟩
    · exact .inr ⟨record, mem, same, positive⟩
  · rintro (⟨⟨record, mem, same, positive⟩, free⟩ | ⟨record, mem, same, positive⟩)
    · exact ⟨record, mem, positive, .inl ⟨same, free⟩⟩
    · exact ⟨record, mem, positive, .inr same⟩

theorem scopedFunctions_iff (records : List FunctionRecord) (scope name : Text) :
    (scope, name) ∈ (records.foldl recordName {}).scopedFunctions ↔
      scope ≠ [] ∧ ':' ∉ scope ∧ Counted records (scope ++ ':' :: name) := by
  by_cases empty : scope = []
  · subst empty
    have none_ : ∀ name, ([], name) ∉ (records.foldl recordName {}).scopedFunctions := by
      induction records using List.reverseRecOn with
      | nil => simp
      | append_singleton records record ih =>
        rw [List.foldl_append, List.foldl_cons, List.foldl_nil]
        exact recordName_empty_scope ih
    simpa using none_ name
  · have read : (scope, name) ∈ (records.foldl recordName {}).scopedFunctions ↔
        ∃ record ∈ records, 0 < record.executionCount ∧ splitName record = (scope, name) := by
      induction records using List.reverseRecOn with
      | nil => simp
      | append_singleton records record ih =>
        rw [List.foldl_append, List.foldl_cons, List.foldl_nil, mem_scopedFunctions_recordName empty, ih]
        simp [or_and_right, exists_or]
    rw [read]
    simp only [splitName_scoped empty, Counted]
    constructor
    · rintro ⟨record, mem, positive, same, free⟩
      exact ⟨empty, free, record, mem, same, positive⟩
    · rintro ⟨-, free, record, mem, same, positive⟩
      exact ⟨record, mem, positive, same, free⟩

/-! ### What is selected -/

def unitFileName (function : Function) : Text :=
  filename (SourceLocation.locationFromFunction function).unitFilePath

/-- A record names the function, on its own or in the file of its unit. -/
def Covered (records : List FunctionRecord) (function : Function) : Prop :=
  Counted records function.name ∨ Counted records (unitFileName function ++ ':' :: function.name)

theorem isCovered_iff (records : List FunctionRecord) (function : Function) :
    isCovered (records.foldl recordName {}) function = true ↔
      (Counted records function.name ∧ ':' ∉ function.name) ∨ Counted records (':' :: function.name) ∨
        (':' ∉ unitFileName function ∧ Counted records (unitFileName function ++ ':' :: function.name)) := by
  unfold isCovered
  rw [Bool.or_eq_true, List.contains_iff_mem, List.contains_iff_mem, unscopedFunctions_iff]
  change _ ∨ (unitFileName function, function.name) ∈ _ ↔ _
  rw [scopedFunctions_iff]
  by_cases noFile : unitFileName function = []
  · rw [noFile]
    simp
  · simp only [noFile, ne_eq, not_false_eq_true, true_and, or_assoc]

instance (records : List FunctionRecord) (name : Text) : Decidable (Counted records name) :=
  List.decidableBEx _ _

instance (records : List FunctionRecord) (function : Function) : Decidable (Covered records function) :=
  inferInstanceAs (Decidable (_ ∨ _))

/-- In module order the covered functions, or all of them marked as covered or not. -/
def selectedFunctions (records : List FunctionRecord) (includeNotCovered : Bool) (program : List Module) :
    List FunctionUnderTest :=
  (bitcodes program).flatMap fun bitcode =>
    if includeNotCovered then
      bitcode.module.functions.map fun function =>
        { function, bitcode, covered := decide (Covered records function) }
    else
      (bitcode.module.functions.filter fun function => Covered records function).map fun function =>
        { function, bitcode }

def SelectsCovered (records : List FunctionRecord) (includeNotCovered : Bool)
    (program : List Module) : Prop :=
  getFunctionsUnderTest (some records) includeNotCovered program =
    selectedFunctions records includeNotCovered program

/-- A record with a leading colon counts for every file; a record does not count where the colon it is split at
is one of the function's or of the file's name. -/
def Unambiguous (records : List FunctionRecord) (function : Function) : Prop :=
  let own := Counted records function.name
  let inFile := Counted records (unitFileName function ++ ':' :: function.name)
  let anywhere := Counted records (':' :: function.name)
  (anywhere → own ∨ inFile) ∧
    (own → ':' ∈ function.name → anywhere ∨ (':' ∉ unitFileName function ∧ inFile)) ∧
    (inFile → ':' ∈ unitFileName function → anywhere ∨ (':' ∉ function.name ∧ own))

theorem unambiguous_iff (records : List FunctionRecord) (function : Function) :
    Unambiguous records function ↔
      (isCovered (records.foldl recordName {}) function = true ↔ Covered records function) := by
  rw [isCovered_iff]
  unfold Unambiguous Covered
  tauto

theorem selectsCovered_of {records : List FunctionRecord} {program : List Module} (includeNotCovered : Bool)
    (agree : ∀ bitcode ∈ bitcodes program, ∀ function ∈ bitcode.module.functions,
      (isCovered (records.foldl recordName {}) function = true ↔ Covered records function)) :
    SelectsCovered records includeNotCovered program := by
  apply List.flatMap_congr
  intro bitcode mem
  have same := agree bitcode mem
  generalize bitcode.module.functions = functions at same ⊢
  induction functions with
  | nil => cases includeNotCovered <;> rfl
  | cons function functions ih =>
    have rest := ih fun other mem => same other (List.mem_cons_of_mem _ mem)
    have first := same function List.mem_cons_self
    rw [List.filterMap_cons, rest]
    by_cases covered : Covered records function
    · rw [if_pos (first.mpr covered)]
      cases includeNotCovered <;> simp [covered]
    · rw [if_neg (mt first.mp covered)]
      cases includeNotCovered <;> simp [covered]

theorem mem_selectedFunctions {records : List FunctionRecord} {includeNotCovered : Bool}
    {program : List Module} {bitcode : Bitcode} (mem : bitcode ∈ bitcodes program) {function : Function}
    (own : function ∈ bitcode.module.functions) :
    { function, bitcode } ∈ selectedFunctions records includeNotCovered program ↔
    Covered records function := by
  unfold selectedFunctions
  rw [List.mem_flatMap]
  constructor
  · rintro ⟨other, -, listed⟩
    cases includeNotCovered with
    | true =>
      obtain ⟨g, -, same⟩ := List.mem_map.mp listed
      obtain ⟨rfl, -, flag⟩ := FunctionUnderTest.mk.inj same
      exact of_decide_eq_true flag.1
    | false =>
      obtain ⟨g, kept, same⟩ := List.mem_map.mp listed
      obtain ⟨rfl, -⟩ := FunctionUnderTest.mk.inj same
      exact of_decide_eq_true (List.mem_filter.mp kept).2
  · intro covered
    refine ⟨bitcode, mem, ?_⟩
    cases includeNotCovered with
    | true => exact List.mem_map.mpr ⟨function, own, by simp [covered]⟩
    | false => exact List.mem_map.mpr ⟨function, List.mem_filter.mpr ⟨own, decide_eq_true covered⟩, rfl⟩

theorem mem_getFunctionsUnderTest {records : List FunctionRecord} {includeNotCovered : Bool}
    {program : List Module} {bitcode : Bitcode} (mem : bitcode ∈ bitcodes program) {function : Function}
    (own : function ∈ bitcode.module.functions) :
    { function, bitcode } ∈ getFunctionsUnderTest (some records) includeNotCovered program ↔
      isCovered (records.foldl recordName {}) function = true := by
  simp only [getFunctionsUnderTest, List.mem_flatMap, List.mem_filterMap]
  constructor
  · rintro ⟨other, -, g, -, same⟩
    split at same
    · rename_i covered
      obtain ⟨rfl, -⟩ := FunctionUnderTest.mk.inj (Option.some.inj same)
      exact covered
    · split at same
      · have flag := (FunctionUnderTest.mk.inj (Option.some.inj same)).2.2.1
        cases flag
      · cases same
  · intro covered
    exact ⟨bitcode, mem, function, own, if_pos covered⟩

theorem selectsCovered_iff (records : List FunctionRecord) (includeNotCovered : Bool)
    (program : List Module) :
    SelectsCovered records includeNotCovered program ↔
      ∀ module ∈ program, ∀ function ∈ module.functions, Unambiguous records function := by
  constructor
  · intro selects module mem function own
    obtain ⟨position, at_position⟩ := List.mem_iff_getElem?.mp mem
    have bitcode : (⟨position, module⟩ : Bitcode) ∈ bitcodes program := mem_bitcodes.mpr at_position
    rw [unambiguous_iff, ← mem_getFunctionsUnderTest bitcode own, ← mem_selectedFunctions bitcode own]
    exact iff_of_eq (congrArg _ selects)
  · intro clear
    apply selectsCovered_of
    intro bitcode mem function own
    have inside : bitcode.module ∈ program := List.mem_of_getElem? (mem_bitcodes.mp mem)
    exact (unambiguous_iff records function).mp (clear _ inside function own)

/-- An Objective-C method with one argument. -/
def areaMethod : Function where
  ref := 0
  name := "-[Shape area:]".toList
  type := ⟨[.pointer, .pointer, .int 32], false, .void⟩
  blocks := [⟨0, [], [], .ret none, none⟩]
  distinct := by decide

def shapeModule : Module where
  functions := [areaMethod]
  distinct := List.pairwise_singleton _ _
  named := by decide

theorem not_selectsCovered_method : ¬ SelectsCovered [⟨areaMethod.name, 1⟩] false [shapeModule] := by
  unfold SelectsCovered
  decide

end Mull.Driver
