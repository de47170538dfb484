import Mull.FunctionUnderTest
import Mull.SourceLocation

/-! `Driver::getFunctionsUnderTest`. -/

namespace Mull.Driver
open Base LLVM

/-- A function record of the coverage mapping. -/
structure FunctionRecord where
  name : Text
  executionCount : Nat

/-- The names found in the records: on their own, and after a scope. -/
structure CoveredNames where
  unscopedFunctions : List Text := []
  scopedFunctions : List (Text × Text) := []

/-- A record is split at its first colon; an empty scope counts as none. -/
def splitName (record : FunctionRecord) : Text × Text :=
  match record.name.dropWhile (· ≠ ':') with
  | [] => ([], record.name)
  | _ :: name => (record.name.takeWhile (· ≠ ':'), name)

def recordName (names : CoveredNames) (record : FunctionRecord) : CoveredNames :=
  if record.executionCount = 0 then names
  else
    let (scope, name) := splitName record
    if scope = [] then { names with unscopedFunctions := names.unscopedFunctions ++ [name] }
    else { names with scopedFunctions := names.scopedFunctions ++ [(scope, name)] }

/-- The last component, `.` after a trailing separator. -/
def lastComponent (path : Text) : Text :=
  match path.reverse with
  | [] => []
  | '/' :: rest => if rest.all (· = '/') then ['/'] else ['.']
  | reversed => (reversed.takeWhile (· ≠ '/')).reverse

/-- `llvm::sys::path::filename`: a name after exactly two separators is a component with them. -/
def filename (path : Text) : Text :=
  match path with
  | '/' :: '/' :: c :: rest =>
    if c = '/' then lastComponent path
    else match (c :: rest).dropWhile (· ≠ '/') with
      | [] => path
      | below => lastComponent below
  | _ => lastComponent path

def isCovered (names : CoveredNames) (function : Function) : Bool :=
  names.unscopedFunctions.contains function.name ||
    names.scopedFunctions.contains
      (filename (SourceLocation.locationFromFunction function).unitFilePath, function.name)

def bitcodes (program : List Module) :
    List Bitcode := program.zipIdx.map fun (module, position) => ⟨position, module⟩

/-- `coverage` holds the records if there is a coverage mapping. -/
def getFunctionsUnderTest (coverage : Option (List FunctionRecord)) (includeNotCovered : Bool)
    (program : List Module) : List FunctionUnderTest :=
  match coverage with
  | some records =>
    let names := records.foldl recordName {}
    (bitcodes program).flatMap fun bitcode => bitcode.module.functions.filterMap fun function =>
      if isCovered names function then some { function, bitcode }
      else if includeNotCovered then some { function, bitcode, covered := false }
      else none
  | none =>
    (bitcodes program).flatMap fun bitcode => bitcode.module.functions.map fun function =>
      { function, bitcode }

section
variable {coverage : Option (List FunctionRecord)} {includeNotCovered : Bool} {program : List Module}

theorem mem_bitcodes {bitcode : Bitcode} : bitcode ∈ bitcodes program ↔
    program[bitcode.position]? = some bitcode.module := by
  unfold bitcodes
  simp only [List.mem_map, Prod.exists, List.mem_zipIdx_iff_getElem?]
  constructor
  · rintro ⟨module, position, at_position, rfl⟩
    exact at_position
  · intro at_position
    exact ⟨_, _, at_position, rfl⟩

/-- A function under test is one of a module of the program, and nothing is selected in it yet. -/
theorem getFunctionsUnderTest_mem {f : FunctionUnderTest}
    (mem : f ∈ getFunctionsUnderTest coverage includeNotCovered program) :
    f.bitcode ∈ bitcodes program ∧ f.function ∈ f.bitcode.module.functions ∧ f.selectedInstructions = [] := by
  unfold getFunctionsUnderTest at mem
  cases coverage with
  | none =>
    simp only [List.mem_flatMap, List.mem_map] at mem
    obtain ⟨bitcode, mem_bitcode, function, mem_function, rfl⟩ := mem
    exact ⟨mem_bitcode, mem_function, rfl⟩
  | some records =>
    simp only [List.mem_flatMap, List.mem_filterMap] at mem
    obtain ⟨bitcode, mem_bitcode, function, mem_function, eq⟩ := mem
    split at eq
    · cases eq
      exact ⟨mem_bitcode, mem_function, rfl⟩
    · split at eq
      · cases eq
        exact ⟨mem_bitcode, mem_function, rfl⟩
      · cases eq

end

end Mull.Driver
